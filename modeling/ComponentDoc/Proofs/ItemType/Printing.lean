import ComponentDoc.Proofs.ItemType.Nesting
import ComponentDoc.Proofs.Outcome
import ComponentDoc.Proofs.Text.Blank

namespace ComponentDoc

namespace TypeExpression

open Text

def Encloses (opener closer : Char) (text : List Char) : Prop :=
  text = opener :: unwrap text ++ [closer] ∧ IsNested (unwrap text)

instance (opener closer : Char) (text : List Char) : Decidable (Encloses opener closer text) :=
  inferInstanceAs (Decidable (_ ∧ _))

/-- A name is no union, no literal and no star or question mark, and nothing is to be taken off its ends. -/
structure TypeName where
  text : List Char
  ne_nil : text ≠ []
  trimmed : trim text = text
  noQuote : ∀ c ∈ text, isQuote c = false
  nested : IsNested text
  bars : ∀ i < text.length, text[i]? = some '|' → ¬IsNested (text.take i)
  notEnclosed : ¬Encloses '(' ')' text ∧ ¬Encloses '{' '}' text
  noColon : text.head? ≠ some ':'
  notNumeral : NumberLiteral.isNumeral text = false
  notConstant : text ∉ ["true".toList, "false".toList, "null".toList]
  notAny : isAny text = false

inductive TypeTree
  | name (name : TypeName)
  | union (first second : TypeTree) (rest : List TypeTree)

namespace TypeTree

def enclosed : TypeTree → List Char → List Char
  | name _, text => text
  | union .., text => '(' :: text ++ [')']

mutual

def print : TypeTree → List Char
  | name n => n.text
  | union first second rest =>
    List.intercalate ['|'] (first.enclosed first.print :: second.enclosed second.print :: printParts rest)

def printParts : List TypeTree → List (List Char)
  | [] => []
  | t :: rest => t.enclosed t.print :: printParts rest

end

/-- What is read for an alternative at a depth; the parentheses of a union take a level of their own. -/
def alternative (t : TypeTree) (readAt : Nat → ItemType) (depth : Nat) : ItemType :=
  match t with
  | name _ => readAt depth
  | union .. => if maxDepth < depth then .any else readAt (depth + 1)

mutual

/-- What is read for a tree at a depth. -/
def readAt : TypeTree → Nat → ItemType
  | name n, depth => if maxDepth < depth then .any else .named (String.ofList n.text)
  | union first second rest, depth =>
    if maxDepth < depth then .any
    else
      .union (String.ofList (union first second rest).print)
        (first.alternative first.readAt (depth + 1) :: second.alternative second.readAt (depth + 1) ::
          readAlternatives rest (depth + 1))

def readAlternatives : List TypeTree → Nat → List ItemType
  | [], _ => []
  | t :: rest, depth => t.alternative t.readAt depth :: readAlternatives rest depth

end

def part (t : TypeTree) : List Char := t.enclosed t.print

theorem printParts_eq (ts : List TypeTree) : printParts ts = ts.map part := by
  induction ts with
  | nil => rfl
  | cons t ts ih => rw [printParts, ih]; rfl

theorem readAlternatives_eq (ts : List TypeTree) (depth : Nat) :
    readAlternatives ts depth = ts.map fun t => t.alternative t.readAt depth := by
  induction ts with
  | nil => rfl
  | cons t ts ih => rw [readAlternatives, ih]; rfl

theorem print_union (first second : TypeTree) (rest : List TypeTree) :
    (union first second rest).print = List.intercalate ['|'] ((first :: second :: rest).map part) := by
  rw [print, printParts_eq]
  rfl

theorem readAt_union (first second : TypeTree) (rest : List TypeTree) (depth : Nat) :
    (union first second rest).readAt depth =
      if maxDepth < depth then .any
      else
        .union (String.ofList (union first second rest).print)
          ((first :: second :: rest).map fun t => t.alternative t.readAt (depth + 1)) := by
  rw [readAt, readAlternatives_eq]
  rfl

mutual

theorem forall_of_union {P : TypeTree → Prop} (hname : ∀ n, P (name n))
    (hunion : ∀ first second rest, (∀ t ∈ first :: second :: rest, P t) → P (union first second rest)) :
    ∀ t, P t
  | name n => hname n
  | union first second rest => by
    refine hunion first second rest ?_
    rw [List.forall_mem_cons, List.forall_mem_cons]
    exact ⟨forall_of_union hname hunion first, forall_of_union hname hunion second,
      forall_mem_of_union hname hunion rest⟩

theorem forall_mem_of_union {P : TypeTree → Prop} (hname : ∀ n, P (name n))
    (hunion : ∀ first second rest, (∀ t ∈ first :: second :: rest, P t) → P (union first second rest)) :
    ∀ ts : List TypeTree, ∀ t ∈ ts, P t
  | [] => List.forall_mem_nil P
  | t :: ts => by
    rw [List.forall_mem_cons]
    exact ⟨forall_of_union hname hunion t, forall_mem_of_union hname hunion ts⟩

end

end TypeTree

structure IsPlain (text : List Char) : Prop where
  ne_nil : text ≠ []
  trimmed : trim text = text
  noQuote : ∀ c ∈ text, isQuote c = false
  nested : IsNested text
  noColon : text.head? ≠ some ':'

section Plain

variable {text rest : List Char}

theorem IsPlain.bar (h : IsPlain text) (hrest : IsPlain rest) : IsPlain (text ++ '|' :: rest) where
  ne_nil := List.append_ne_nil_of_left_ne_nil h.ne_nil _
  trimmed := by
    rw [trim_eq_self_iff, List.head?_append_of_ne_nil text h.ne_nil, List.getLast?_append_cons]
    refine ⟨(trim_eq_self_iff.mp h.trimmed).1, fun c hc => (trim_eq_self_iff.mp hrest.trimmed).2 c ?_⟩
    rwa [List.getLast?_cons_of_ne_nil hrest.ne_nil] at hc
  noQuote := by
    rw [List.forall_mem_append, List.forall_mem_cons]
    exact ⟨h.noQuote, by decide, hrest.noQuote⟩
  nested := h.nested.bar hrest.nested
  noColon := by
    rw [List.head?_append_of_ne_nil text h.ne_nil]
    exact h.noColon

theorem IsPlain.intercalate {first : List Char} {parts : List (List Char)} (h : ∀ p ∈ first :: parts, IsPlain p) :
    IsPlain (List.intercalate ['|'] (first :: parts)) := by
  induction parts generalizing first with
  | nil => simpa using h
  | cons second parts ih =>
    obtain ⟨hfirst, hparts⟩ := List.forall_mem_cons.mp h
    rw [List.intercalate_cons_cons, List.append_assoc, List.singleton_append]
    exact hfirst.bar (ih hparts)

theorem IsPlain.enclosed (h : IsPlain text) : IsPlain ('(' :: text ++ [')']) where
  ne_nil := by simp
  trimmed := by
    rw [trim_eq_self_iff, List.getLast?_concat]
    simp [isBlank]
  noQuote := by
    rw [List.cons_append, List.forall_mem_cons, List.forall_mem_append, List.forall_mem_singleton]
    exact ⟨by decide, h.noQuote, by decide⟩
  nested := h.nested.enclosed (by decide) (by decide)
  noColon := by simp

theorem TypeName.isPlain (n : TypeName) : IsPlain n.text := ⟨n.ne_nil, n.trimmed, n.noQuote, n.nested, n.noColon⟩

theorem TypeName.isPart (n : TypeName) : IsPart n.text where
  noQuote := n.noQuote
  nested := n.nested
  barsEnclosed := by
    intro before after he hbefore
    refine n.bars before.length (by simp [he]) (by simp [he]) ?_
    rw [he, List.take_left]
    exact hbefore

theorem TypeName.not_isWrapped (n : TypeName) :
    isWrapped '(' ')' n.text = false ∧ isWrapped '{' '}' n.text = false := by
  have hplain {opener closer : Char} (hc : closerOf? opener = some closer) (hgt : closer ≠ '>')
      (h : ¬Encloses opener closer n.text) : isWrapped opener closer n.text = false := by
    rw [Bool.eq_false_iff]
    intro hwrapped
    obtain ⟨inner, he, hinner⟩ := (isWrapped_iff_of_nested hc hgt n.nested).mp hwrapped
    have hunwrap : unwrap n.text = inner := by simp [he, unwrap]
    exact h ⟨by rw [hunwrap, he], by rwa [hunwrap]⟩
  exact ⟨hplain (by decide) (by decide) n.notEnclosed.1, hplain (by decide) (by decide) n.notEnclosed.2⟩

end Plain

namespace TypeTree

theorem part_isPlain {t : TypeTree} (h : IsPlain t.print) : IsPlain t.part := by
  cases t with
  | name n => exact h
  | union => exact h.enclosed

theorem print_isPlain (t : TypeTree) : IsPlain t.print := by
  refine forall_of_union (P := fun t => IsPlain t.print) TypeName.isPlain (fun first second rest ih => ?_) t
  have hparts : ∀ p ∈ (first :: second :: rest).map part, IsPlain p :=
    List.forall_mem_map.mpr fun t ht => part_isPlain (ih t ht)
  rw [print_union]
  exact IsPlain.intercalate hparts

theorem part_isPart (t : TypeTree) : IsPart t.part := by
  cases t with
  | name n => exact n.isPart
  | union first second rest =>
    have h := (union first second rest).print_isPlain
    exact isPart_enclosed (by decide) (by decide) h.noQuote h.nested

end TypeTree

section Normalize

variable {text : List Char}

theorem normalize_of_trim {trimmed : List Char} (htrim : trim text = trimmed)
    (hcolon : trimmed.head? ≠ some ':') :
    normalize text = if isWrapped '\x7b' '\x7d' trimmed then trim (unwrap trimmed) else trimmed := by
  rw [normalize, htrim]
  split
  · exact absurd rfl hcolon
  · rfl

theorem normalize_of_isPlain (h : IsPlain text) (hbraces : isWrapped '{' '}' text = false) : normalize text = text := by
  rw [normalize_of_trim h.trimmed h.noColon, hbraces]
  rfl

theorem normalize_enclosed (h : IsPlain text) : normalize ('{' :: text ++ ['}']) = text := by
  have htrim : trim ('{' :: text ++ ['}']) = '{' :: text ++ ['}'] := by
    rw [trim_eq_self_iff, List.getLast?_concat]
    simp [isBlank]
  have hwrapped : isWrapped '{' '}' ('{' :: text ++ ['}']) = true :=
    isWrapped_enclosed (by decide) (by decide) h.nested
  have hunwrap : unwrap ('{' :: text ++ ['}']) = text := by simp [unwrap]
  rw [normalize_of_trim htrim (by simp), if_pos hwrapped, hunwrap, h.trimmed]

theorem normalize_colon (h : IsPlain text) : normalize (':' :: text) = text := by
  have htrim : trim (':' :: text) = ':' :: text := by
    rw [trim_eq_self_iff, List.getLast?_cons_of_ne_nil h.ne_nil]
    exact ⟨by simp [isBlank], (trim_eq_self_iff.mp h.trimmed).2⟩
  rw [normalize, htrim]
  exact h.trimmed

end Normalize

namespace TypeTree

theorem normalize_print (t : TypeTree) : normalize t.print = t.print := by
  refine normalize_of_isPlain t.print_isPlain ?_
  cases t with
  | name n => exact n.not_isWrapped.2
  | union first second rest =>
    have hfirst := part_isPlain first.print_isPlain
    rw [print_union, List.map_cons, List.map_cons, List.intercalate_cons_cons, List.append_assoc]
    exact isWrapped_append (by decide) (by decide) hfirst.nested hfirst.ne_nil (by simp)

theorem normalize_part (t : TypeTree) : normalize t.part = t.part := by
  refine normalize_of_isPlain (part_isPlain t.print_isPlain) ?_
  cases t with
  | name n => exact n.not_isWrapped.2
  | union => simp [part, enclosed, isWrapped]

theorem alternatives_intercalate (t : TypeTree) (ts : List TypeTree) :
    alternatives (List.intercalate ['|'] ((t :: ts).map part)) = (t :: ts).map part := by
  have hplain (p : List Char) (hp : p ∈ (t :: ts).map part) : IsPlain p := by
    obtain ⟨u, -, rfl⟩ := List.mem_map.mp hp
    exact part_isPlain u.print_isPlain
  have hparts (p : List Char) (hp : p ∈ (t :: ts).map part) : IsPart p := by
    obtain ⟨u, -, rfl⟩ := List.mem_map.mp hp
    exact u.part_isPart
  have hcut : splitTopLevel (· == '|') (List.intercalate ['|'] ((t :: ts).map part)) = ((t :: ts).map part).map trim :=
    congrArg (List.map trim) (partsFrom_intercalate hparts (by decide))
  rw [alternatives, hcut, List.map_congr_left fun p hp => (hplain p hp).trimmed, List.map_id']
  exact List.filter_eq_self.mpr fun p hp => by simpa using (hplain p hp).ne_nil

theorem alternatives_part (t : TypeTree) : alternatives t.part = [t.part] := by
  simpa using alternatives_intercalate t []

end TypeTree

section Read

variable {levels : Nat} {text other : List Char}

theorem read_congr (h : normalize text = normalize other) : read levels text = read levels other := by
  cases levels <;> simp only [read, h]

theorem read_zero (h : normalize text ≠ []) : read 0 text = .ok (some .any) := by
  rw [read, if_neg h]

theorem read_single {single : List Char} (h : normalize text ≠ [])
    (hsingle : alternatives (normalize text) = [single]) :
    read (levels + 1) text =
      if isWrapped '(' ')' single then read levels (unwrap single) else (readSingle single).map some := by
  rw [read, if_neg h]
  simp only [hsingle]

theorem read_many {first second : List Char} {rest : List (List Char)} (h : normalize text ≠ [])
    (hmany : alternatives (normalize text) = first :: second :: rest) :
    read (levels + 1) text =
      ((first :: second :: rest).mapM fun a => (read levels a).map fun t => t.getD .any).map fun types =>
        some (.union (String.ofList (normalize text)) types) := by
  rw [read, if_neg h]
  simp only [hmany]
  rfl

theorem readSingle_eq_ok {text : List Char} {t : ItemType} (h : readSingle text = .ok t) :
    (∃ v, literal? text = .ok (some v) ∧ t = .const v) ∨ ∃ name, t = .named name := by
  obtain ⟨found, hliteral, hfound⟩ := bind_eq_ok.mp h
  cases found with
  | some v =>
    cases hfound
    exact .inl ⟨v, hliteral, rfl⟩
  | none =>
    right
    by_cases hany : isAny text
    · refine ⟨"any", ?_⟩
      simpa [hany, ItemType.any, pure, Except.pure] using hfound.symm
    · refine ⟨String.ofList text, ?_⟩
      simpa [hany, pure, Except.pure] using hfound.symm

theorem readSingle_name (n : TypeName) : readSingle n.text = .ok (.named (String.ofList n.text)) := by
  have hquotation : quotation? n.text = none := by
    obtain ⟨c, rest, he⟩ := List.exists_cons_of_ne_nil n.ne_nil
    have hc : isQuote c = false := n.noQuote c (he ▸ List.mem_cons_self)
    rw [he, quotation?, hc]
    rfl
  have hconstant := n.notConstant
  simp only [List.mem_cons, List.not_mem_nil, or_false, not_or] at hconstant
  have hliteral : literal? n.text = .ok none := by
    simp only [literal?, hquotation, n.notNumeral, if_neg hconstant.1, if_neg hconstant.2.1, if_neg hconstant.2.2]
    rfl
  rw [readSingle, hliteral]
  simp only [n.notAny]
  rfl

theorem levelsAt_of_lt {depth : Nat} (h : maxDepth < depth) : levelsAt depth = 0 := by
  simp only [levelsAt]
  omega

theorem levelsAt_eq_succ {depth : Nat} (h : ¬maxDepth < depth) : levelsAt depth = levelsAt (depth + 1) + 1 := by
  simp only [levelsAt]
  omega

end Read

namespace TypeTree

theorem read_name (n : TypeName) (depth : Nat) :
    read (levelsAt depth) n.text = .ok (some ((name n).readAt depth)) := by
  have hnormal : normalize n.text = n.text := (name n).normalize_print
  have hne : normalize n.text ≠ [] := hnormal.symm ▸ n.ne_nil
  rw [readAt]
  by_cases hdeep : maxDepth < depth
  · rw [levelsAt_of_lt hdeep, read_zero hne, if_pos hdeep]
  · have hsingle : alternatives (normalize n.text) = [n.text] := hnormal.symm ▸ (name n).alternatives_part
    rw [levelsAt_eq_succ hdeep, read_single hne hsingle, n.not_isWrapped.1, readSingle_name, if_neg hdeep]
    rfl

theorem read_part {t : TypeTree} (h : ∀ depth, read (levelsAt depth) t.print = .ok (some (t.readAt depth)))
    (depth : Nat) : read (levelsAt depth) t.part = .ok (some (t.alternative t.readAt depth)) := by
  cases t with
  | name n => exact h depth
  | union first second rest =>
    let t := union first second rest
    have hplain := t.print_isPlain
    have hnormal : normalize t.part = t.part := t.normalize_part
    have hne : normalize t.part ≠ [] := hnormal.symm ▸ (part_isPlain hplain).ne_nil
    change read (levelsAt depth) t.part = .ok (some (if maxDepth < depth then .any else t.readAt (depth + 1)))
    by_cases hdeep : maxDepth < depth
    · rw [levelsAt_of_lt hdeep, read_zero hne, if_pos hdeep]
    · have hsingle : alternatives (normalize t.part) = [t.part] := hnormal.symm ▸ t.alternatives_part
      have hwrapped : isWrapped '(' ')' t.part = true := isWrapped_enclosed (by decide) (by decide) hplain.nested
      have hunwrap : unwrap t.part = t.print := by simp [t, part, enclosed, unwrap]
      rw [levelsAt_eq_succ hdeep, read_single hne hsingle, if_pos hwrapped, hunwrap, h, if_neg hdeep]

theorem read_print (t : TypeTree) (depth : Nat) : read (levelsAt depth) t.print = .ok (some (t.readAt depth)) := by
  refine forall_of_union (P := fun t => ∀ depth, read (levelsAt depth) t.print = .ok (some (t.readAt depth)))
    read_name (fun first second rest ih depth => ?_) t depth
  have hnormal := (union first second rest).normalize_print
  have hne : normalize (union first second rest).print ≠ [] :=
    hnormal.symm ▸ (union first second rest).print_isPlain.ne_nil
  have hmany : alternatives (normalize (union first second rest).print) = (first :: second :: rest).map part := by
    rw [hnormal, print_union]
    exact alternatives_intercalate first (second :: rest)
  rw [readAt_union]
  by_cases hdeep : maxDepth < depth
  · rw [levelsAt_of_lt hdeep, read_zero hne, if_pos hdeep]
  · have halternatives : ((first :: second :: rest).map part).mapM
        (fun a => (read (levelsAt (depth + 1)) a).map fun t => t.getD .any) =
          .ok ((first :: second :: rest).map fun t => t.alternative t.readAt (depth + 1)) := by
      refine mapM_eq_ok fun t ht => ?_
      rw [read_part (ih t ht)]
      rfl
    rw [levelsAt_eq_succ hdeep, read_many hne hmany, if_neg hdeep, hnormal]
    exact congrArg (Except.map _) halternatives

/-- A tree is read back from how it is printed, also in braces or behind a colon. -/
theorem reads_back (t : TypeTree) (depth : Nat) :
    read (levelsAt depth) t.print = .ok (some (t.readAt depth)) ∧
      read (levelsAt depth) ('{' :: t.print ++ ['}']) = .ok (some (t.readAt depth)) ∧
      read (levelsAt depth) (':' :: t.print) = .ok (some (t.readAt depth)) := by
  have hplain := t.print_isPlain
  have hbare := t.read_print depth
  have hbraces := (normalize_enclosed hplain).trans t.normalize_print.symm
  have hcolon := (normalize_colon hplain).trans t.normalize_print.symm
  exact ⟨hbare, (read_congr hbraces).trans hbare, (read_congr hcolon).trans hbare⟩

-- Bars in brackets and the arrow belong to a name.
example : ∃ n : TypeName, n.text = "(x: A | B) => Map<C, D[]>".toList :=
  ⟨{ text := "(x: A | B) => Map<C, D[]>".toList
     ne_nil := by decide +kernel
     trimmed := by decide +kernel
     noQuote := by simp [isQuote]
     nested := by decide +kernel
     bars := by decide +kernel
     notEnclosed := by decide +kernel
     noColon := by decide +kernel
     notNumeral := by decide +kernel
     notConstant := by decide +kernel
     notAny := by decide +kernel }, rfl⟩

end TypeTree

end TypeExpression

end ComponentDoc
