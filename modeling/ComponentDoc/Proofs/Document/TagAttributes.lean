import ComponentDoc.Document.TagAttributes
import ComponentDoc.Proofs.Keyed
import ComponentDoc.Proofs.Text.Blank
import ComponentDoc.Proofs.Text.Search

namespace ComponentDoc.Document

open Text Keyed

/-- What may follow the name of an attribute: an equals sign with blanks around it, and a value, in quotes of one
kind or without. -/
structure Assignment where
  before : List Char
  after : List Char
  quote : Option Char
  value : List Char

namespace Assignment

def quoted (a : Assignment) : List Char := a.quote.toList ++ a.value ++ a.quote.toList

def print (a : Assignment) : List Char := a.before ++ '=' :: a.after ++ a.quoted

@[mk_iff wellFormed_iff_and]
structure WellFormed (a : Assignment) : Prop where
  before : allBlank a.before
  after : allBlank a.after
  quoted : ∀ q ∈ a.quote, (q = '"' ∨ q = '\'') ∧ q ∉ a.value
  bare : a.quote = none → a.value ≠ [] ∧ (∀ c ∈ a.value, isBareValueChar c) ∧
    ∀ c ∈ a.value.head?, c ≠ '"' ∧ c ≠ '\''

theorem wellFormed_iff {a : Assignment} : a.WellFormed ↔
    (allBlank a.before && allBlank a.after &&
      match a.quote with
      | some q => (q == '"' || q == '\'') && !a.value.contains q
      | none => !a.value.isEmpty && a.value.all isBareValueChar &&
          a.value.head?.all fun c => c != '"' && c != '\'') := by
  obtain ⟨before, after, quote, value⟩ := a
  rw [wellFormed_iff_and]
  cases quote <;> simp [and_assoc, Option.all_eq_true]

instance (a : Assignment) : Decidable a.WellFormed := decidable_of_iff' _ wellFormed_iff

end Assignment

structure TagEntry where
  name : List Char
  assigned : Option Assignment

namespace TagEntry

def print (e : TagEntry) : List Char := e.name ++ e.assigned.elim [] Assignment.print

def label (e : TagEntry) : String := String.ofList (lower e.name)

def value (e : TagEntry) : String := String.ofList (e.assigned.elim [] Assignment.value)

structure WellFormed (e : TagEntry) : Prop where
  nonempty : e.name ≠ []
  name : ∀ c ∈ e.name, isNameChar c
  assigned : ∀ a ∈ e.assigned, a.WellFormed

instance (e : TagEntry) : Decidable e.WellFormed :=
  decidable_of_iff (e.name ≠ [] ∧ e.name.all isNameChar ∧ ∀ a ∈ e.assigned, a.WellFormed)
    ⟨fun ⟨hnonempty, hname, hassigned⟩ => ⟨hnonempty, List.all_eq_true.mp hname, hassigned⟩,
      fun h => ⟨h.nonempty, List.all_eq_true.mpr h.name, h.assigned⟩⟩

end TagEntry

/-- The entries are written in the text, with blanks around them and at least one between any two. -/
inductive Written : List TagEntry → List Char → Prop
  | nil {blanks : List Char} : allBlank blanks → Written [] blanks
  | cons (blanks : List Char) {rest : List Char} {e : TagEntry} {es : List TagEntry} : allBlank blanks →
      e.WellFormed → Written es rest → (∀ c ∈ rest.head?, isBlank c) → Written (e :: es) (blanks ++ e.print ++ rest)

variable {found : TagAttributes} {rest text : List Char} {a : Assignment} {e : TagEntry} {es : List TagEntry}

theorem isNameChar_iff {c : Char} : isNameChar c ↔ isBlank c = false ∧ c ≠ '=' ∧ c ≠ '/' ∧ c ≠ '>' := by
  simp [isNameChar]

theorem isNameChar_eq_false_of_isBlank {c : Char} (h : isBlank c) : isNameChar c = false := by
  simp [isNameChar, h]

theorem quotation?_quoted {quote : Char} {value : List Char} (h : quote ∉ value) (rest : List Char) :
    quotation? quote (quote :: value ++ quote :: rest) = some (quote :: value ++ [quote]) := by
  rw [List.cons_append, quotation?, if_pos rfl, cutAt_append h]

theorem quotation?_of_head {quote : Char} (h : ∀ c ∈ text.head?, c ≠ quote) : quotation? quote text = none := by
  cases text with
  | nil => rfl
  | cons c text => rw [quotation?, if_neg (h c rfl)]

theorem Assignment.WellFormed.writtenValue? (h : a.WellFormed) (hrest : ∀ c ∈ rest.head?, isBlank c) :
    writtenValue? (a.quoted ++ rest) = some a.quoted := by
  obtain ⟨before, after, quote, value⟩ := a
  unfold Document.writtenValue?
  cases quote with
  | some q =>
    obtain ⟨hq, hvalue⟩ := h.quoted q rfl
    have hquoted : (⟨before, after, some q, value⟩ : Assignment).quoted = q :: value ++ [q] := rfl
    have hself : quotation? q (q :: value ++ [q] ++ rest) = some (q :: value ++ [q]) := by
      rw [List.append_assoc]
      exact quotation?_quoted hvalue rest
    rw [hquoted]
    rcases hq with rfl | rfl
    · rw [hself]
    · rw [quotation?_of_head (by simp), hself]
  | none =>
    obtain ⟨hne, hchars, hhead⟩ := h.bare rfl
    have hquoted : (⟨before, after, none, value⟩ : Assignment).quoted = value := List.append_nil value
    have hhead' : ∀ c ∈ (value ++ rest).head?, c ≠ '"' ∧ c ≠ '\'' := by
      rwa [List.head?_append_of_ne_nil _ hne]
    have htake : (value ++ rest).takeWhile isBareValueChar = value :=
      takeWhile_append_stop hchars fun c hc => by simp [isBareValueChar, hrest c hc]
    rw [hquoted, quotation?_of_head fun c hc => (hhead' c hc).1, quotation?_of_head fun c hc => (hhead' c hc).2, htake]
    cases value with
    | nil => exact absurd rfl hne
    | cons c value => rfl

theorem Assignment.WellFormed.isBlank_head (h : a.WellFormed) (rest : List Char) :
    ∀ c ∈ (a.quoted ++ rest).head?, isBlank c = false := by
  obtain ⟨before, after, quote, value⟩ := a
  cases quote with
  | some q =>
    rintro c ⟨⟩
    rcases (h.quoted q rfl).1 with rfl | rfl <;> rfl
  | none =>
    obtain ⟨hne, hchars, -⟩ := h.bare rfl
    obtain ⟨d, value, rfl⟩ := List.exists_cons_of_ne_nil hne
    rintro c ⟨⟩
    have hd := hchars d List.mem_cons_self
    simp only [isBareValueChar, Bool.not_eq_true', Bool.or_eq_false_iff] at hd
    exact hd.1

theorem takeWhile_isBlank_append {blanks : List Char} (hb : allBlank blanks)
    (hrest : ∀ c ∈ rest.head?, isBlank c = false) :
    (blanks ++ rest).takeWhile isBlank = blanks :=
  takeWhile_append_stop (List.all_eq_true.mp hb) hrest

theorem Assignment.WellFormed.assignment?_print (h : a.WellFormed) (hrest : ∀ c ∈ rest.head?, isBlank c) :
    assignment? (a.print ++ rest) = some (a.quoted, a.print.length) := by
  have hprint : a.print ++ rest = a.before ++ '=' :: (a.after ++ (a.quoted ++ rest)) := by simp [print]
  have hequals : ∀ c ∈ ('=' :: (a.after ++ (a.quoted ++ rest))).head?, isBlank c = false := by
    rintro c ⟨⟩
    rfl
  have hvalue := h.isBlank_head rest
  have hstart : trimStart (a.print ++ rest) = '=' :: (a.after ++ (a.quoted ++ rest)) := by
    rw [hprint, trimStart_append h.before hequals]
  have hbefore : (a.print ++ rest).takeWhile isBlank = a.before := by
    rw [hprint, takeWhile_isBlank_append h.before hequals]
  have hlength : a.print.length = a.before.length + 1 + a.after.length + a.quoted.length := by
    simp only [print, List.length_append, List.length_cons]
    omega
  simp only [assignment?, hstart, hbefore]
  rw [trimStart_append h.after hvalue, h.writtenValue? hrest, takeWhile_isBlank_append h.after hvalue, hlength]

theorem Assignment.WellFormed.unquote (h : a.WellFormed) : unquote a.quoted = a.value := by
  obtain ⟨before, after, quote, value⟩ := a
  cases quote with
  | some q =>
    have hquoted : (⟨before, after, some q, value⟩ : Assignment).quoted = q :: (value ++ [q]) := rfl
    rw [hquoted, Document.unquote, if_pos (h.quoted q rfl).1, List.dropLast_concat]
  | none =>
    obtain ⟨hne, -, hhead⟩ := h.bare rfl
    obtain ⟨d, value, rfl⟩ := List.exists_cons_of_ne_nil hne
    have hquoted : (⟨before, after, none, d :: value⟩ : Assignment).quoted = d :: value := List.append_nil _
    rw [hquoted, Document.unquote, if_neg (not_or.mpr (hhead d rfl))]

theorem assignment?_eq_none (h : ∀ c ∈ (trimStart text).head?, isNameChar c) : assignment? text = none := by
  unfold assignment?
  split
  · next after heq =>
    rw [heq] at h
    exact absurd rfl (isNameChar_iff.mp (h '=' rfl)).2.1
  · rfl

theorem collect_append (found : TagAttributes) (front rest : List Char) :
    collect found front.length (front ++ rest) = collect found 0 rest := by
  induction front with
  | nil => rfl
  | cons c front ih => exact ih

theorem collect_blanks {blanks : List Char} (hb : allBlank blanks) :
    collect found 0 (blanks ++ rest) = collect found 0 rest := by
  induction blanks with
  | nil => rfl
  | cons c blanks ih =>
    obtain ⟨hc, hb⟩ := Bool.and_eq_true_iff.mp hb
    rw [List.cons_append, collect, if_neg (by simp [isNameChar_eq_false_of_isBlank hc]), ih hb]

theorem TagEntry.WellFormed.isNameChar_head (h : e.WellFormed) (hrest : ∀ c ∈ rest.head?, isBlank c) :
    ∀ c ∈ (e.assigned.elim [] Assignment.print ++ rest).head?, isNameChar c = false := by
  have hblank : ∀ c ∈ rest.head?, isNameChar c = false := fun c hc => isNameChar_eq_false_of_isBlank (hrest c hc)
  cases hassigned : e.assigned with
  | none => exact hblank
  | some a =>
    have hbefore := (h.assigned a hassigned).before
    rw [Option.elim_some, Assignment.print]
    cases hb : a.before with
    | nil =>
      rintro c ⟨⟩
      rfl
    | cons d blanks =>
      rintro c ⟨⟩
      rw [hb] at hbefore
      exact isNameChar_eq_false_of_isBlank (List.all_eq_true.mp hbefore d List.mem_cons_self)

theorem collect_entry (he : e.WellFormed) (hrest : ∀ c ∈ rest.head?, isBlank c)
    (hnext : ∀ c ∈ (trimStart rest).head?, isNameChar c) :
    collect found 0 (e.print ++ rest) = collect (found.set e.label e.value) 0 rest := by
  have hstop := he.isNameChar_head hrest
  obtain ⟨name, assigned⟩ := e
  obtain ⟨c, name, rfl⟩ := List.exists_cons_of_ne_nil he.nonempty
  obtain ⟨hc, hname⟩ := List.forall_mem_cons.mp he.name
  dsimp only at hname hstop
  have htake : (name ++ (assigned.elim [] Assignment.print ++ rest)).takeWhile isNameChar = name :=
    takeWhile_append_stop hname hstop
  have hprint : (⟨c :: name, assigned⟩ : TagEntry).print ++ rest =
      c :: (name ++ (assigned.elim [] Assignment.print ++ rest)) := by
    rw [TagEntry.print, List.append_assoc, List.cons_append]
  rw [hprint, collect, if_pos hc]
  simp only [htake, List.length_cons, Nat.add_sub_cancel, List.drop_left]
  cases assigned with
  | none =>
    rw [Option.elim_none, List.nil_append, assignment?_eq_none hnext]
    exact collect_append _ name rest
  | some a =>
    have ha := he.assigned a rfl
    rw [Option.elim_some, ha.assignment?_print hrest]
    dsimp only
    rw [ha.unquote, ← List.length_append, ← List.append_assoc]
    exact collect_append _ (name ++ a.print) rest

theorem Written.isNameChar_head (h : Written es text) : ∀ c ∈ (trimStart text).head?, isNameChar c := by
  cases h with
  | nil hb =>
    have hnil : trimStart text = [] := by
      rw [← List.append_nil text]
      exact trimStart_append hb (by simp)
    simp [hnil]
  | @cons blanks rest e _ hb he =>
    obtain ⟨d, name, hname⟩ := List.exists_cons_of_ne_nil he.nonempty
    have hd : isNameChar d := he.name d (hname ▸ List.mem_cons_self)
    have hhead : ∀ c ∈ (e.print ++ rest).head?, isNameChar c := by
      rw [TagEntry.print, hname]
      rintro c ⟨⟩
      exact hd
    rw [List.append_assoc, trimStart_append hb fun c hc => (isNameChar_iff.mp (hhead c hc)).1]
    exact hhead

theorem collect_written (h : Written es text) :
    collect found 0 text = es.foldl (fun found e => found.set e.label e.value) found := by
  induction h generalizing found with
  | @nil blanks hb =>
    rw [← List.append_nil blanks, collect_blanks hb]
    rfl
  | cons _ hb he hes hrest ih =>
    rw [List.append_assoc, collect_blanks hb, collect_entry he hrest hes.isNameChar_head, ih, List.foldl_cons]

theorem tagAttributes_exact (h : Written es text) :
    (keys (parseTagAttributes text)).Nodup ∧
      ∀ name, (parseTagAttributes text).get? name =
        (es.reverse.find? fun e => e.label = name).map TagEntry.value := by
  have hread : parseTagAttributes text =
      (es.map fun e => (e.label, e.value)).foldl (fun found e => set e.1 e.2 found) [] := by
    rw [parseTagAttributes, collect_written h, List.foldl_map]
  rw [hread]
  refine ⟨nodup_keys_foldl_set _ List.nodup_nil, fun name => ?_⟩
  rw [get?_foldl_set, ← List.map_reverse, List.find?_map, Option.map_map]
  rfl

theorem tagAttributes_exact_overridden :
    let text := " lang = \"a's > b\"\tDEFER\nLANG='t=\"s\"' src= x/y=z'"
    let first : TagEntry := ⟨"lang".toList, some ⟨[' '], [' '], some '"', "a's > b".toList⟩⟩
    let alone : TagEntry := ⟨"DEFER".toList, none⟩
    let second : TagEntry := ⟨"LANG".toList, some ⟨[], [], some '\'', "t=\"s\"".toList⟩⟩
    let bare : TagEntry := ⟨"src".toList, some ⟨[], [' '], none, "x/y=z'".toList⟩⟩
    Written [first, alone, second, bare] text.toList ∧ (keys (parseTagAttributes text.toList)).Nodup ∧
      ["lang", "defer", "src", "href"].map (fun name => (parseTagAttributes text.toList).get? name) =
        [some "t=\"s\"", some "", some "x/y=z'", none] := by
  intro text first alone second bare
  have hbare : Written [bare] " src= x/y=z'".toList :=
    .cons [' '] rfl (by decide +kernel) (.nil rfl) (by simp)
  have hsecond : Written [second, bare] "\nLANG='t=\"s\"' src= x/y=z'".toList :=
    .cons ['\n'] rfl (by decide +kernel) hbare (by rintro _ ⟨⟩; rfl)
  have halone : Written [alone, second, bare] "\tDEFER\nLANG='t=\"s\"' src= x/y=z'".toList :=
    .cons ['\t'] rfl (by decide +kernel) hsecond (by rintro _ ⟨⟩; rfl)
  have hwritten : Written [first, alone, second, bare]
      " lang = \"a's > b\"\tDEFER\nLANG='t=\"s\"' src= x/y=z'".toList :=
    .cons [' '] rfl (by decide +kernel) halone (by rintro _ ⟨⟩; rfl)
  obtain ⟨hkeys, hvalues⟩ := tagAttributes_exact hwritten
  refine ⟨hwritten, hkeys, (List.map_congr_left fun name _ => hvalues name).trans ?_⟩
  decide +kernel

end ComponentDoc.Document
