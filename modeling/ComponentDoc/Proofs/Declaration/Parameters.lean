import ComponentDoc.Declaration.Param
import ComponentDoc.Proofs.ItemType.LiteralUnions
import ComponentDoc.Proofs.Text.Blank
import ComponentDoc.Proofs.Text.Search

namespace ComponentDoc

open Text TypeExpression

structure Phrase where
  text : List Char
  nonempty : text ≠ []
  trimmed : trim text = text

def BracesMatch (text : List Char) : Prop :=
  ClosesOnlyOpen '{' '}' 0 text ∧ text.count '{' = text.count '}'

instance (text : List Char) : Decidable (BracesMatch text) := inferInstanceAs (Decidable (_ ∧ _))

/-- A documented parameter with a default. Neither dots before the type nor an equals sign after it say something
else about the parameter. -/
structure DefaultedParam where
  type : Phrase
  braces : BracesMatch type.text
  no_dots : ¬['.', '.', '.'] <+: type.text
  no_mark : ¬['='] <:+ type.text
  name : List Char
  name_nonempty : name ≠ []
  name_chars : ∀ c ∈ name, isBlank c = false ∧ c ∉ ['=', '[', ']', '{', '}']
  default : Phrase
  description : Phrase

namespace DefaultedParam

variable (p : DefaultedParam)

def assignment : List Char := p.name ++ '=' :: p.default.text

def text : List Char :=
  '{' :: p.type.text ++ '}' :: ' ' :: '[' :: p.assignment ++ ']' :: ' ' :: '-' :: ' ' :: p.description.text

def doc : ParamDoc where
  name := String.ofList p.name
  typeText := some (String.ofList p.type.text)
  description := some (String.ofList p.description.text)
  optional := true
  default := some (String.ofList p.default.text)
  repeated := false

end DefaultedParam

theorem closeBrace?_append {text : List Char} {depth : Nat} (hopen : ClosesOnlyOpen '{' '}' depth text)
    (hcount : text.count '{' + depth = text.count '}') (rest : List Char) :
    closeBrace? (depth + 1) (text ++ '}' :: rest) = some (text, rest) := by
  -- One brace more is open for the scan than within the text: the one before the text.
  induction text generalizing depth with
  | nil =>
    obtain rfl : depth = 0 := by simpa using hcount
    rfl
  | cons c text ih =>
    have hne : '{' ≠ '}' := by decide
    rw [List.cons_append, closeBrace?]
    by_cases ho : c = '{'
    · subst ho
      rw [closesOnlyOpen_opener hne] at hopen
      rw [List.count_cons_self, List.count_cons_of_ne hne] at hcount
      simp [ih hopen (by omega)]
    · by_cases hc : c = '}'
      · subst hc
        obtain ⟨hpos, hopen⟩ := (closesOnlyOpen_closer hne).mp hopen
        obtain ⟨depth, rfl⟩ := Nat.exists_eq_succ_of_ne_zero hpos.ne'
        rw [Nat.succ_sub_one] at hopen
        rw [List.count_cons_self, List.count_cons_of_ne hne.symm] at hcount
        simp [ih hopen (by omega)]
      · rw [closesOnlyOpen_cons ho hc] at hopen
        rw [List.count_cons_of_ne ho, List.count_cons_of_ne hc] at hcount
        simp [ho, hc, ih hopen hcount]

namespace DefaultedParam

variable (p : DefaultedParam)

def afterType : List Char := '[' :: p.assignment ++ ']' :: ' ' :: '-' :: ' ' :: p.description.text

theorem leadingBraced_text : leadingBraced p.text = (some p.type.text, p.afterType) := by
  have htrim : trim p.text = p.text := by
    have happend : p.text = '{' :: (p.type.text ++ '}' :: ' ' :: '[' :: p.assignment ++ [']', ' ', '-', ' '] ++
        p.description.text) := by simp [text]
    rw [happend]
    exact trim_cons_append_of_trimmed (by decide) _ p.description.nonempty p.description.trimmed
  have hafter : trim (' ' :: p.afterType) = p.afterType := by
    have happend : p.afterType = '[' :: (p.assignment ++ [']', ' ', '-', ' '] ++ p.description.text) := by
      simp [afterType]
    have htrimmed : trim p.afterType = p.afterType := by
      rw [happend]
      exact trim_cons_append_of_trimmed (by decide) _ p.description.nonempty p.description.trimmed
    have hblank : allBlank [' '] = true := by decide
    exact (trim_append_of_blank_left hblank p.afterType).trans htrimmed
  obtain ⟨hopen, hcount⟩ := p.braces
  have hclose : closeBrace? 1 (p.type.text ++ '}' :: ' ' :: p.afterType) = some (p.type.text, ' ' :: p.afterType) :=
    closeBrace?_append hopen hcount _
  have hshape : p.text = '{' :: (p.type.text ++ '}' :: ' ' :: p.afterType) := by simp [text, afterType]
  rw [leadingBraced, htrim, hshape]
  simp only [hclose, p.type.trimmed, hafter]

theorem splitType_type : ParamDoc.splitType p.type.text = (p.type.text, false, false) := by
  have hdots : dropStart? ['.', '.', '.'] p.type.text = none := by
    rw [dropStart?, if_neg (by simpa using p.no_dots)]
  have hmark : dropStop? ['='] p.type.text = none := by
    rw [dropStop?, if_neg (by simpa using p.no_mark)]
  simp only [ParamDoc.splitType, hdots, hmark]

end DefaultedParam

theorem cutName_brackets {inside : List Char} (h : ']' ∉ inside) (after : List Char) :
    ParamDoc.cutName ('[' :: inside ++ ']' :: after) = ('[' :: inside ++ [']'], after) := by
  rw [List.cons_append, ParamDoc.cutName, cutAt_append h]

theorem splitName_brackets {name value : List Char} (hne : name ≠ []) (hname : ∀ c ∈ name, isBlank c = false)
    (hmark : '=' ∉ name) :
    ParamDoc.splitName ('[' :: (name ++ '=' :: value) ++ [']']) = (name, true, some (trim value)) := by
  have hinside : trim (name ++ '=' :: value) = name ++ '=' :: trimEnd value := by
    have hstart : trimStart (name ++ '=' :: value) = name ++ '=' :: value := by
      obtain ⟨c, rest, rfl⟩ := List.exists_cons_of_ne_nil hne
      exact trimStart_cons (hname c List.mem_cons_self)
    have hlast : ∃ c ∈ (name ++ ['=']).getLast?, isBlank c = false :=
      ⟨'=', by rw [List.getLast?_concat]; rfl, by decide⟩
    have happend (rest : List Char) : name ++ '=' :: rest = name ++ ['='] ++ rest := by simp
    rw [trim, hstart, happend, trimEnd_append_right hlast, ← happend]
  have hunwrap : unwrap ('[' :: (name ++ '=' :: value) ++ [']']) = name ++ '=' :: value := by
    rw [unwrap, List.cons_append, List.drop_one, List.tail_cons, List.dropLast_concat]
  rw [List.cons_append, ParamDoc.splitName, ← List.cons_append, hunwrap, hinside, cutAt_append hmark]
  simp only [trim_of_no_blank hname, trim_trimEnd]

theorem afterDash_phrase (s : Phrase) : ParamDoc.afterDash (' ' :: '-' :: ' ' :: s.text) = s.text := by
  have hblank : isBlank ' ' = true := by decide
  have hdash : isBlank '-' = false := by decide
  have hstart : trimStart (' ' :: '-' :: ' ' :: s.text) = '-' :: ' ' :: s.text := by simp [trimStart, hblank, hdash]
  rw [ParamDoc.afterDash, hstart]
  simp only [hblank, if_true, s.trimmed]

theorem exists_takeWhile_append (s rest : List Char) :
    ∃ after, s ++ ']' :: rest = s.takeWhile (· ≠ ']') ++ ']' :: after := by
  by_cases h : ']' ∈ s
  · obtain ⟨front, back, rfl, hfront⟩ := List.eq_append_cons_of_mem h
    have hkept : ∀ c ∈ front, decide (c ≠ ']') = true := fun c hc => decide_eq_true (ne_of_mem_of_not_mem hc hfront)
    refine ⟨back ++ ']' :: rest, ?_⟩
    rw [takeWhile_append_stop hkept (by simp), List.append_assoc, List.cons_append]
  · refine ⟨rest, ?_⟩
    rw [List.takeWhile_eq_self_iff.mpr fun c hc => decide_eq_true (ne_of_mem_of_not_mem hc h)]

theorem not_mem_trim_takeWhile (s : List Char) : ']' ∉ trim (s.takeWhile (· ≠ ']')) := by
  intro hmem
  obtain ⟨before, after, -, -, hs⟩ := exists_trim_append (s.takeWhile (· ≠ ']'))
  have hkept : ']' ∈ s.takeWhile (· ≠ ']') := by
    rw [hs]
    exact List.mem_append_left _ (List.mem_append_right _ hmem)
  simpa using List.mem_takeWhile_imp hkept

namespace DefaultedParam

variable (p : DefaultedParam)

/-- Up to the first closing bracket stands what is taken for the default; what is behind it is taken for the
description. -/
theorem ofDescription?_of_split {value after : List Char} (hvalue : ']' ∉ value)
    (hsplit : p.default.text ++ ']' :: ' ' :: '-' :: ' ' :: p.description.text = value ++ ']' :: after) :
    ParamDoc.ofDescription? p.text = some { p.doc with
      default := some (String.ofList (trim value))
      description := Comment.nonempty? (String.ofList (ParamDoc.afterDash after)) } := by
  have hbracket : ']' ∉ p.name ++ '=' :: value := by
    have hname : ']' ∉ p.name := fun hmem => (p.name_chars _ hmem).2 (by simp)
    simp [hname, hvalue]
  have hrest : p.afterType = '[' :: (p.name ++ '=' :: value) ++ ']' :: after := by
    simp [afterType, assignment, ← hsplit]
  have hmark : '=' ∉ p.name := fun hmem => (p.name_chars _ hmem).2 (by simp)
  have htype : Comment.nonempty? (String.ofList p.type.text) = some (String.ofList p.type.text) := by
    simp [Comment.nonempty?, p.type.nonempty]
  rw [ParamDoc.ofDescription?, p.leadingBraced_text, hrest]
  simp only [cutName_brackets hbracket, splitName_brackets p.name_nonempty (fun c hc => (p.name_chars c hc).1) hmark,
    Option.getD_some, p.splitType_type, htype]
  rw [if_neg (by simpa using p.name_nonempty)]
  rfl

theorem ofDescription?_text :
    (ParamDoc.ofDescription? p.text = some p.doc ↔ ']' ∉ p.default.text) ∧
      ∃ description, ParamDoc.ofDescription? p.text = some { p.doc with
        default := some (String.ofList (trim (p.default.text.takeWhile (· ≠ ']'))))
        description := description } := by
  obtain ⟨after, hafter⟩ := exists_takeWhile_append p.default.text (' ' :: '-' :: ' ' :: p.description.text)
  have hbracket : ']' ∉ p.default.text.takeWhile (· ≠ ']') := fun hmem => by simpa using List.mem_takeWhile_imp hmem
  have hread := p.ofDescription?_of_split hbracket hafter
  refine ⟨⟨fun h => ?_, fun h => ?_⟩, _, hread⟩
  · rw [hread] at h
    have hdefault : trim (p.default.text.takeWhile (· ≠ ']')) = p.default.text :=
      String.ofList_injective (Option.some.inj (congrArg ParamDoc.default (Option.some.inj h)))
    exact hdefault ▸ not_mem_trim_takeWhile _
  · rw [p.ofDescription?_of_split h rfl, p.default.trimmed, afterDash_phrase]
    simp [Comment.nonempty?, p.description.nonempty, doc]

theorem ofDescription?_text_force : ∃ p : DefaultedParam,
    p.text = "\x7bboolean\x7d [force=false] - Skip confirmation".toList ∧ ']' ∉ p.default.text ∧
      ParamDoc.ofDescription? p.text =
        some ⟨"force", some "boolean", some "Skip confirmation", true, some "false", false⟩ := by
  let p : DefaultedParam :=
    { type := ⟨"boolean".toList, by decide, by decide⟩
      braces := by decide
      no_dots := by decide
      no_mark := by decide
      name := "force".toList
      name_nonempty := by decide
      name_chars := by simp [isBlank]
      default := ⟨"false".toList, by decide, by decide⟩
      description := ⟨"Skip confirmation".toList, by decide, by decide⟩ }
  have hdefault : ']' ∉ p.default.text := by decide
  exact ⟨p, by decide, hdefault, p.ofDescription?_text.1.mpr hdefault⟩

theorem default_cut_at_bracket : ∃ p : DefaultedParam,
    p.text = "\x7bnumber[]\x7d [xs=[1, 2]] - the list".toList ∧ IsNested p.default.text ∧
      ParamDoc.ofDescription? p.text =
        some ⟨"xs", some "number[]", some "] - the list", true, some "[1, 2", false⟩ ∧
      ParamDoc.ofDescription? p.text ≠ some p.doc := by
  let p : DefaultedParam :=
    { type := ⟨"number[]".toList, by decide, by decide⟩
      braces := by decide
      no_dots := by decide
      no_mark := by decide
      name := "xs".toList
      name_nonempty := by decide
      name_chars := by simp [isBlank]
      default := ⟨"[1, 2]".toList, by decide, by decide⟩
      description := ⟨"the list".toList, by decide, by decide⟩ }
  have hread : ParamDoc.ofDescription? p.text =
      some ⟨"xs", some "number[]", some "] - the list", true, some "[1, 2", false⟩ := by
    decide +kernel
  refine ⟨p, by decide, by decide, hread, ?_⟩
  rw [hread]
  decide

end DefaultedParam

end ComponentDoc
