import ComponentDoc.Document.Regions
import ComponentDoc.Proofs.Markup.Token
import Mathlib.Logic.Relation

/-!
The walk of the splitter through a document. A step is told apart by what it steps over: a piece
that is the same whatever follows it, a less-than sign that opens nothing, or a region.
-/

namespace ComponentDoc.Document

open Text Markup

/-- A tag of which `used` is left, the first `k` characters already looked at, ends with `used`,
wherever it stands and whatever follows. -/
def EndsTag (k : Nat) (selfClosing : Bool) (used : List Char) : Prop :=
  ∀ name start pos more,
    tagEnd name start k pos (used ++ more) = .ok (pos + used.length, selfClosing)

theorem EndsTag.cons {k k' : Nat} {c : Char} {selfClosing : Bool} {used : List Char}
    (h : EndsTag k' selfClosing used)
    (hstep : ∀ name start pos more, tagEnd name start k pos (c :: (used ++ more)) =
      tagEnd name start k' (pos + 1) (used ++ more)) : EndsTag k selfClosing (c :: used) := by
  intro name start pos more
  rw [List.cons_append, hstep, h, List.length_cons]
  congr 2
  omega

theorem tagEnd_reads {name : String} {start k pos stop : Nat} {text : List Char} {sc : Bool}
    (h : tagEnd name start k pos text = .ok (stop, sc)) :
    ∃ inner rest, text = inner ++ tagStop sc ++ rest ∧
      stop = pos + (inner ++ tagStop sc).length ∧ k ≤ inner.length ∧
      EndsTag k sc (inner ++ tagStop sc) := by
  fun_induction tagEnd name start k pos text with
  | case1 | case3 | case5 => simp at h
  | case2 k pos c rest ih =>
    obtain ⟨inner, more, rfl, rfl, hk, hm⟩ := ih h
    refine ⟨c :: inner, more, rfl, ?_, Nat.succ_le_succ hk, hm.cons fun _ _ _ _ => rfl⟩
    simp only [List.cons_append, List.length_cons]
    omega
  | case4 pos rest stop' hs ih =>
    obtain ⟨inner, more, rfl, rfl, hk, hm⟩ := ih h
    obtain ⟨e, back, he, rfl, hb⟩ := skipExpression_eq_ok_iff.mp hs
    have hlen : pos + e.length - pos - 1 = e.length - 1 := by omega
    rw [hlen] at hk hm
    -- The expression does not reach beyond the tag, so it is there whatever follows the tag.
    obtain ⟨tail, ht, -⟩ := eq_append_of_append_eq (c := '{' :: (inner ++ tagStop sc)) (d := more)
      he.symm (by simp only [List.length_cons, List.length_append]; omega)
    refine ⟨'{' :: inner, more, rfl, ?_, Nat.zero_le _, hm.cons fun name start pos more => ?_⟩
    · simp only [List.cons_append, List.length_cons]
      omega
    · have hskip : skipExpression pos ('{' :: (inner ++ tagStop sc ++ more)) =
          .ok (pos + e.length) := by
        rw [← List.cons_append, ht, List.append_assoc]
        exact hb.skip pos (tail ++ more)
      rw [tagEnd, if_pos rfl, hskip]
      simp only [Nat.add_sub_cancel_left]
  | case6 pos c rest hc hq i hi ih =>
    obtain ⟨inner, more, rfl, rfl, hk, hm⟩ := ih h
    obtain ⟨before, after, he, rfl, hn⟩ := indexOf?_singleton_eq_some_iff.mp hi
    obtain ⟨tail, ht, -⟩ := eq_append_of_append_eq (a := before ++ [c]) (b := after)
      (c := inner ++ tagStop sc) (d := more) (by simpa using he.symm)
      (by simp only [List.length_append, List.length_singleton]; omega)
    refine ⟨c :: inner, more, rfl, ?_, Nat.zero_le _, hm.cons fun name start pos more => ?_⟩
    · simp only [List.cons_append, List.length_cons]
      omega
    · have hindex : indexOf? [c] (inner ++ tagStop sc ++ more) = some before.length := by
        rw [ht, List.append_assoc, List.append_assoc]
        exact indexOf?_append_singleton hn _
      rw [tagEnd, if_neg hc, if_pos hq, hindex]
  | case7 pos c rest hc hq hs =>
    obtain ⟨rfl, hr⟩ := hs
    cases h
    cases rest with
    | nil => simp at hr
    | cons d ds =>
      obtain rfl : d = '>' := by simpa using hr
      exact ⟨[], ds, rfl, rfl, le_rfl, fun _ _ _ _ => by simp [tagStop, tagEnd]⟩
  | case8 pos rest hc hq hs =>
    cases h
    exact ⟨[], rest, rfl, rfl, le_rfl, fun _ _ _ _ => by simp [tagStop, tagEnd]⟩
  | case9 pos c rest hc hq hs hg ih =>
    obtain ⟨inner, more, rfl, rfl, hk, hm⟩ := ih h
    refine ⟨c :: inner, more, rfl, ?_, Nat.zero_le _, hm.cons fun name start pos more' => ?_⟩
    · simp only [List.cons_append, List.length_cons]
      omega
    · have hhead : (inner ++ tagStop sc ++ more').head? = (inner ++ tagStop sc ++ more).head? := by
        cases inner <;> cases sc <;> rfl
      rw [tagEnd, if_neg hc, if_neg hq, if_neg (hhead ▸ hs), if_neg hg]

structure IsTagRest (selfClosing : Bool) (used : List Char) : Prop where
  ends : EndsTag 0 selfClosing used
  head : ∀ d ∈ used.head?, isTagNameChar d = false
  stop : ∃ inner, used = inner ++ tagStop selfClosing

theorem isTagRest_of_tagEnd {name : String} {start pos stop : Nat} {text : List Char} {sc : Bool}
    (h : tagEnd name start 0 pos text = .ok (stop, sc))
    (ht : ∀ d ∈ text.head?, isTagNameChar d = false) :
    ∃ used rest, text = used ++ rest ∧ stop = pos + used.length ∧ IsTagRest sc used := by
  obtain ⟨inner, rest, rfl, rfl, -, hends⟩ := tagEnd_reads h
  refine ⟨inner ++ tagStop sc, rest, rfl, rfl, hends, fun d hd => ht d ?_, inner, rfl⟩
  cases inner <;> cases sc <;> exact hd

theorem IsTagRest.head_append {sc : Bool} {used : List Char} (h : IsTagRest sc used)
    (more : List Char) : ∀ d ∈ (used ++ more).head?, isTagNameChar d = false := by
  obtain ⟨inner, rfl⟩ := h.stop
  intro d hd
  apply h.head
  cases inner <;> cases sc <;> exact hd

def Lone (rest : List Char) : Prop :=
  ¬ ['!', '-', '-'] <+: rest ∧ tagName? rest = none ∧
    ∀ after, rest = '/' :: after → tagName? after = none

section Equations

variable (p : Progress) (pos : Nat)

theorem isPrefixOf_commentStart_iff {c : Char} {rest : List Char} :
    commentStart.isPrefixOf (c :: rest) = true ↔ c = '<' ∧ ['!', '-', '-'] <+: rest := by
  rw [List.isPrefixOf_iff_prefix, commentStart, List.cons_prefix_cons, eq_comm]

theorem step_comment (after : List Char) :
    step p pos '<' ('!' :: '-' :: '-' :: after) =
      match indexOf? commentStop after with
      | none => .ok (p, pos + (after.length + 4))
      | some i => .ok (p, pos + i + 7) := rfl

theorem step_braces (rest : List Char) :
    step p pos '{' rest = (skipExpression pos ('{' :: rest)).map fun stop => (p, stop) := by
  simp [step, commentStart]

theorem step_plain {c : Char} (hb : c ≠ '{') (hl : c ≠ '<') (rest : List Char) :
    step p pos c rest = .ok (p, pos + 1) := by
  simp [step, commentStart, hb, hl, hl.symm]

theorem step_lone {rest : List Char} (h : Lone rest) : step p pos '<' rest = .ok (p, pos + 1) := by
  obtain ⟨hc, ht, hs⟩ := h
  have hp : commentStart.isPrefixOf ('<' :: rest) = false := by
    rw [← Bool.not_eq_true, isPrefixOf_commentStart_iff]
    exact fun hp => hc hp.2
  unfold step
  simp only [hp, Bool.false_eq_true, ↓reduceIte, Char.reduceEq]
  split
  · next after => rw [hs after rfl]
  · rw [ht]

theorem step_endTag {name more : List Char} (hn : IsTagName name)
    (hm : ∀ d ∈ more.head?, isTagNameChar d = false) :
    step p pos '<' ('/' :: name ++ more) =
      .ok ({ p with opens := closeName (String.ofList name) p.opens },
        match indexOf? ['>'] more with
        | none => pos + (name.length + more.length + 2)
        | some i => pos + 3 + name.length + i) := by
  have ht : tagName? (name ++ more) = some name := tagName?_eq_some_iff.mpr ⟨hn, more, rfl, hm⟩
  unfold step
  simp only [commentStart, List.cons_append, List.isPrefixOf, Char.reduceBEq, Bool.true_and,
    Bool.false_and, Bool.false_eq_true, ↓reduceIte, Char.reduceEq, ht, List.drop_left]
  cases indexOf? ['>'] more with
  | none => simp [Nat.add_assoc]
  | some i => rfl

theorem step_startTag {name more : List Char} (hn : IsTagName name)
    (hm : ∀ d ∈ more.head?, isTagNameChar d = false) :
    step p pos '<' (name ++ more) = startTagStep p pos name ('<' :: name ++ more) := by
  have ht : tagName? (name ++ more) = some name := tagName?_eq_some_iff.mpr ⟨hn, more, rfl, hm⟩
  obtain ⟨c, rest, rfl, -, -⟩ := id hn
  have hbang : c ≠ '!' := hn.head_ne (by decide)
  have hslash : c ≠ '/' := hn.head_ne (by decide)
  have hp : commentStart.isPrefixOf ('<' :: (c :: rest ++ more)) = false := by
    rw [← Bool.not_eq_true, isPrefixOf_commentStart_iff]
    exact fun hp => hbang (List.cons_prefix_cons.mp hp.2).1.symm
  unfold step
  simp only [hp, Bool.false_eq_true, ↓reduceIte, Char.reduceEq]
  split
  · next after he => exact absurd (List.cons.inj he).1 hslash
  · rw [ht]
    rfl

/-- The region of the element `name` whose start tag goes on with `used`. Its content are the first
`before` characters of what follows, its end tag are the next `length`. -/
def regionAt (name used more : List Char) (before length : Nat) : Region :=
  { tag := String.ofList name
    content := String.ofList (more.take before)
    span := ⟨pos, pos + 1 + name.length + used.length + before + length⟩
    contentStart := pos + 1 + name.length + used.length
    attributes := parseTagAttributes used.dropLast }

theorem step_opening {name used : List Char} {sc : Bool} (hn : IsTagName name) (hu : IsTagRest sc used)
    (more : List Char) :
    step p pos '<' (name ++ (used ++ more)) =
      if sc || isVoid (String.ofList name) then .ok (p, pos + 1 + name.length + used.length)
      else if String.ofList name ∉ rawNames then
        .ok ({ p with opens := String.ofList name :: p.opens }, pos + 1 + name.length + used.length)
      else
        match findEndTag? name more with
        | none => .error (.at (.regionLeftOpen (String.ofList name)) pos
            (pos + ('<' :: name ++ (used ++ more)).length))
        | some (before, length) =>
          if p.opens.isEmpty then
            (p.regions.insert (regionAt pos name used more before length)).map fun regions =>
              ({ p with regions }, pos + 1 + name.length + used.length + before + length)
          else .ok (p, pos + 1 + name.length + used.length + before + length) := by
  have hdrop : ('<' :: name ++ (used ++ more)).drop (name.length + 1) = used ++ more := by simp
  have hstop : pos + 1 + name.length + used.length - pos = name.length + 1 + used.length := by omega
  have hcontent : ('<' :: name ++ (used ++ more)).drop (name.length + 1 + used.length) = more := by
    rw [← List.drop_drop, hdrop, List.drop_left]
  have hlist : slice (pos + 1 + name.length - pos) (pos + 1 + name.length + used.length - 1 - pos)
      ('<' :: name ++ (used ++ more)) = used.dropLast := by
    rw [slice, show pos + 1 + name.length - pos = name.length + 1 by omega, hdrop,
      List.dropLast_eq_take, show pos + 1 + name.length + used.length - 1 - pos - (name.length + 1) =
        used.length - 1 by omega, List.take_append_of_le_length (Nat.sub_le _ _)]
  rw [step_startTag p pos hn (hu.head_append more)]
  unfold startTagStep
  simp only [hdrop, hu.ends _ _ _ more, hstop, hcontent, hlist, bind, Except.bind, pure, Except.pure]
  split
  · rfl
  · split
    · next hraw => rw [if_pos (by simpa using hraw)]
    · next hraw =>
      rw [if_neg (by simpa using hraw)]
      cases findEndTag? name more with
      | none => rfl
      | some found =>
        cases p.opens with
        | nil =>
          simp only [List.isEmpty_nil, Bool.not_true, Bool.false_eq_true, ↓reduceIte, regionAt]
          generalize p.regions.insert _ = r
          cases r <;> rfl
        | cons d ds => rfl

end Equations

/-- Whatever follows `c` and `tail`, the splitter steps over them and nothing else, going from `opens`
to `opens'`. At the end of the document they may be all that is left of an open piece. -/
def Skips (opens opens' : List String) (c : Char) (tail rest : List Char) : Prop :=
  ∀ regions pos more, (rest = [] → more = []) →
    step ⟨regions, opens⟩ pos c (tail ++ more) = .ok (⟨regions, opens'⟩, pos + (tail.length + 1))

theorem skips_plain (opens : List String) {c : Char} (hb : c ≠ '{') (hl : c ≠ '<') (rest : List Char) :
    Skips opens opens c [] rest :=
  fun _ pos _ _ => step_plain _ pos hb hl _

theorem skips_braces (opens : List String) {tail : List Char} (h : Balanced ('{' :: tail))
    (rest : List Char) : Skips opens opens '{' tail rest := by
  intro regions pos more _
  rw [step_braces, ← List.cons_append, h.skip]
  rfl

theorem skips_comment (opens : List String) {before : List Char} {i : Nat} (hb : before.length = i)
    (hi : ∀ more, indexOf? commentStop (before ++ commentStop ++ more) = some i) (rest : List Char) :
    Skips opens opens '<' ('!' :: '-' :: '-' :: (before ++ commentStop)) rest := by
  intro regions pos more _
  have hlen : pos + (('!' :: '-' :: '-' :: (before ++ commentStop)).length + 1) = pos + i + 7 := by
    simp only [commentStop, List.length_append, List.length_cons, List.length_nil]
    omega
  rw [List.cons_append, List.cons_append, List.cons_append, step_comment, hi, hlen]

theorem skips_openComment (opens : List String) {after : List Char}
    (h : indexOf? commentStop after = none) :
    Skips opens opens '<' ('!' :: '-' :: '-' :: after) [] := by
  intro regions pos more hm
  rw [hm rfl, List.append_nil, step_comment, h]
  rfl

theorem skips_endTag (opens : List String) {name inner : List Char} (hn : IsTagName name)
    (hi : ∀ d ∈ inner.head?, isTagNameChar d = false) (hgt : '>' ∉ inner) (rest : List Char) :
    Skips opens (closeName (String.ofList name) opens) '<' ('/' :: name ++ (inner ++ ['>'])) rest := by
  intro regions pos more _
  have hm : ∀ d ∈ (inner ++ '>' :: more).head?, isTagNameChar d = false := by
    cases inner with
    | nil => simp only [List.nil_append, List.head?_cons, Option.mem_some_iff, forall_eq']; decide
    | cons d ds => exact hi
  have he : '/' :: name ++ (inner ++ ['>']) ++ more = '/' :: name ++ (inner ++ '>' :: more) := by simp
  rw [he, step_endTag _ pos hn hm, indexOf?_append_singleton hgt]
  simp only [List.cons_append, List.length_cons, List.length_append, List.length_nil]
  congr 2
  omega

theorem skips_openEndTag (opens : List String) {name after : List Char} (hn : IsTagName name)
    (ha : ∀ d ∈ after.head?, isTagNameChar d = false) (hgt : indexOf? ['>'] after = none) :
    Skips opens (closeName (String.ofList name) opens) '<' ('/' :: name ++ after) [] := by
  intro regions pos more hm
  rw [hm rfl, List.append_nil, step_endTag _ pos hn ha, hgt]
  simp only [List.cons_append, List.length_cons, List.length_append]

/-- The region is `used`, up to the first of its end tags in `used` and what follows. -/
structure Finds (pos : Nat) (used rest : List Char) (region : Region) : Prop where
  tag : region.tag ∈ rawNames
  span : region.span = ⟨pos, pos + used.length⟩
  split : ∃ inner closing, used = '<' :: region.tag.toList ++ inner ++ ['>'] ++
      region.content.toList ++ closing ∧
    region.contentStart = pos + ('<' :: region.tag.toList ++ inner ++ ['>']).length ∧
    IsEndTag region.tag.toList closing ∧
    ∀ front tag back, region.content.toList ++ closing ++ rest = front ++ tag ++ back →
      IsEndTag region.tag.toList tag → region.content.length ≤ front.length

/-- What the splitter knows after the step over `c` and `tail`, which `rest` follows. -/
inductive Stepped (p : Progress) (pos : Nat) (c : Char) (tail rest : List Char) : Progress → Prop
  | skipped {opens : List String} (skips : Skips p.opens opens c tail rest) :
      Stepped p pos c tail rest ⟨p.regions, opens⟩
  | lone (sign : c = '<') (alone : tail = []) (next : Lone rest) : Stepped p pos c tail rest p
  | found {region : Region} {regions : Regions} (top : p.opens = [])
      (finds : Finds pos (c :: tail) rest region) (insert : p.regions.insert region = .ok regions) :
      Stepped p pos c tail rest ⟨regions, p.opens⟩

theorem finds_regionAt {pos : Nat} {name used content closing rest : List Char} {sc : Bool}
    (hu : IsTagRest sc used) (hsc : ¬ (sc || isVoid (String.ofList name)) = true)
    (hraw : ¬ String.ofList name ∉ rawNames) (hc : IsEndTag name closing)
    (hfirst : ∀ front tag back, content ++ closing ++ rest = front ++ tag ++ back → IsEndTag name tag →
      content.length ≤ front.length) :
    Finds pos ('<' :: (name ++ used ++ content ++ closing)) rest
      (regionAt pos name used (content ++ closing ++ rest) content.length closing.length) := by
  obtain ⟨inner, rfl⟩ := hu.stop
  obtain rfl : sc = false := by
    simp only [Bool.or_eq_true, not_or, Bool.not_eq_true] at hsc
    exact hsc.1
  have hcontent : (regionAt pos name (inner ++ tagStop false) (content ++ closing ++ rest) content.length
      closing.length).content.toList = content := by
    rw [regionAt, String.toList_ofList, List.append_assoc, List.take_left]
  have htag : (regionAt pos name (inner ++ tagStop false) (content ++ closing ++ rest) content.length
      closing.length).tag.toList = name := String.toList_ofList
  refine ⟨Decidable.not_not.mp hraw, ?_, inner, closing, ?_, ?_, ?_, ?_⟩
  · simp only [regionAt, List.length_cons, List.length_append]
    congr 1
    omega
  · rw [hcontent, htag]
    simp [tagStop]
  · rw [htag]
    simp only [regionAt, tagStop, Bool.false_eq_true, ↓reduceIte, List.length_append, List.length_cons]
    omega
  · rw [htag]
    exact hc
  · rw [← String.length_toList, hcontent, htag]
    exact hfirst

theorem stepped_opening {p p' : Progress} {pos next : Nat} {name used more : List Char} {sc : Bool}
    (hn : IsTagName name) (hu : IsTagRest sc used)
    (h : step p pos '<' (name ++ (used ++ more)) = .ok (p', next)) :
    ∃ tail rest, name ++ (used ++ more) = tail ++ rest ∧ next = pos + (tail.length + 1) ∧
      Stepped p pos '<' tail rest p' := by
  have hlen : pos + 1 + name.length + used.length = pos + ((name ++ used).length + 1) := by
    rw [List.length_append]
    omega
  rw [step_opening p pos hn hu more] at h
  split at h
  · next hsingle =>
    cases h
    refine ⟨name ++ used, more, by simp, hlen, .skipped fun regions pos more' _ => ?_⟩
    rw [List.append_assoc, step_opening _ pos hn hu more', if_pos hsingle, List.length_append]
    congr 2
    omega
  · next hsingle =>
    split at h
    · next hraw =>
      cases h
      refine ⟨name ++ used, more, by simp, hlen, .skipped fun regions pos more' _ => ?_⟩
      rw [List.append_assoc, step_opening _ pos hn hu more', if_neg hsingle, if_pos hraw,
        List.length_append]
      congr 2
      omega
    · next hraw =>
      split at h
      · simp at h
      · next before length hf =>
        obtain ⟨content, tag, rest, rfl, rfl, rfl, ht, hfirst, hmore⟩ := findEndTag?_reads hf
        have hnext : pos + 1 + name.length + used.length + content.length + tag.length =
            pos + ((name ++ used ++ content ++ tag).length + 1) := by
          simp only [List.length_append]
          omega
        refine ⟨name ++ used ++ content ++ tag, rest, by simp, ?_⟩
        split at h
        · next htop =>
          obtain ⟨regions, hinsert, he⟩ := map_eq_ok.mp h
          cases he
          refine ⟨hnext, .found (List.isEmpty_iff.mp htop) ?_ hinsert⟩
          exact finds_regionAt hu hsingle hraw ht hfirst
        · next htop =>
          cases h
          refine ⟨hnext, .skipped fun regions pos more' _ => ?_⟩
          have hgt : '>' ∉ name := hn.not_mem (by decide)
          have he : name ++ used ++ content ++ tag ++ more' =
              name ++ (used ++ (content ++ tag ++ more')) := by simp
          rw [he, step_opening _ pos hn hu, if_neg hsingle, if_neg hraw, hmore hgt more']
          simp only [htop, Bool.false_eq_true, ↓reduceIte, List.length_append]
          congr 2
          omega

theorem stepped {p p' : Progress} {pos next : Nat} {c : Char} {rest : List Char}
    (h : step p pos c rest = .ok (p', next)) :
    ∃ tail more, rest = tail ++ more ∧ next = pos + (tail.length + 1) ∧
      Stepped p pos c tail more p' := by
  by_cases hb : c = '{'
  · subst hb
    rw [step_braces] at h
    cases hs : skipExpression pos ('{' :: rest) with
    | error e => simp [hs, Except.map] at h
    | ok stop =>
      rw [hs] at h
      cases h
      obtain ⟨used, more, he, rfl, hbal⟩ := skipExpression_eq_ok_iff.mp hs
      obtain ⟨d, tail, rfl⟩ := List.exists_cons_of_ne_nil hbal.ne_nil
      obtain ⟨rfl, rfl⟩ := List.cons.inj he
      exact ⟨tail, more, rfl, rfl, .skipped (skips_braces p.opens hbal more)⟩
  by_cases hl : c = '<'
  · subst hl
    by_cases hcomment : ['!', '-', '-'] <+: rest
    · obtain ⟨after, rfl⟩ := hcomment
      change step p pos '<' ('!' :: '-' :: '-' :: after) = _ at h
      rw [step_comment] at h
      cases hi : indexOf? commentStop after with
      | none =>
        rw [hi] at h
        cases h
        exact ⟨_, [], (List.append_nil _).symm, rfl, .skipped (skips_openComment p.opens hi)⟩
      | some i =>
        rw [hi] at h
        cases h
        obtain ⟨before, more, rfl, hlen, hm⟩ := indexOf?_reads hi
        refine ⟨'!' :: '-' :: '-' :: (before ++ commentStop), more, rfl, ?_, ?_⟩
        · simp only [commentStop, List.length_append, List.length_cons, List.length_nil]
          omega
        · exact .skipped (skips_comment p.opens hlen hm more)
    cases hname : tagName? rest with
    | some name =>
      obtain ⟨hn, more, rfl, hm⟩ := tagName?_eq_some_iff.mp hname
      cases ht : tagEnd (String.ofList name) pos 0 (pos + 1 + name.length) more with
      | error e =>
        rw [step_startTag p pos hn hm] at h
        simp [startTagStep, ht, bind, Except.bind] at h
      | ok ends =>
        obtain ⟨used, after, rfl, -, hu⟩ := isTagRest_of_tagEnd ht hm
        exact stepped_opening hn hu h
    | none =>
      by_cases hend : ∃ after name, rest = '/' :: after ∧ tagName? after = some name
      · obtain ⟨after, name, rfl, hafter⟩ := hend
        obtain ⟨hn, more, rfl, hm⟩ := tagName?_eq_some_iff.mp hafter
        rw [← List.cons_append, step_endTag p pos hn hm] at h
        cases hi : indexOf? ['>'] more with
        | none =>
          rw [hi] at h
          cases h
          refine ⟨'/' :: name ++ more, [], by simp, ?_, .skipped (skips_openEndTag p.opens hn hm hi)⟩
          simp only [List.cons_append, List.length_cons, List.length_append]
        | some i =>
          rw [hi] at h
          cases h
          obtain ⟨inner, after, rfl, rfl, hgt⟩ := indexOf?_singleton_eq_some_iff.mp hi
          have hinner : ∀ d ∈ inner.head?, isTagNameChar d = false := by
            cases inner with
            | nil => simp
            | cons d ds => exact hm
          refine ⟨'/' :: name ++ (inner ++ ['>']), after, by simp, ?_,
            .skipped (skips_endTag p.opens hn hinner hgt after)⟩
          simp only [List.cons_append, List.length_cons, List.length_append, List.length_nil]
          omega
      · have hlone : Lone rest := ⟨hcomment, hname, fun after he => by
          by_contra hne
          obtain ⟨name, hs⟩ := Option.ne_none_iff_exists'.mp hne
          exact hend ⟨after, name, he, hs⟩⟩
        rw [step_lone p pos hlone] at h
        cases h
        exact ⟨[], rest, rfl, rfl, .lone rfl rfl hlone⟩
  · rw [step_plain p pos hb hl] at h
    cases h
    exact ⟨[], rest, rfl, rfl, .skipped (skips_plain p.opens hb hl rest)⟩

theorem regionsFrom_append (p : Progress) (pos : Nat) (tail rest : List Char) :
    regionsFrom p tail.length pos (tail ++ rest) = regionsFrom p 0 (pos + tail.length) rest := by
  induction tail generalizing pos with
  | nil => rfl
  | cons c cs ih =>
    rw [List.length_cons, List.cons_append, regionsFrom, ih]
    congr 1
    omega

/-- The steps through `text`, which starts at `pos`, up to its end, and the regions known there. -/
inductive Walk : Progress → Nat → List Char → Regions → Prop
  | done (p : Progress) (pos : Nat) : Walk p pos [] p.regions
  | step {p p' : Progress} {pos : Nat} {c : Char} {tail rest : List Char} {regions : Regions}
      (stepped : Stepped p pos c tail rest p') (walk : Walk p' (pos + (tail.length + 1)) rest regions) :
      Walk p pos (c :: (tail ++ rest)) regions

theorem walk_of_regionsFrom {p : Progress} {pos : Nat} {text : List Char} {regions : Regions}
    (h : regionsFrom p 0 pos text = .ok regions) : Walk p pos text regions := by
  induction hl : text.length using Nat.strongRecOn generalizing p pos text with
  | _ n ih =>
    cases text with
    | nil =>
      cases h
      exact .done p pos
    | cons c rest =>
      rw [regionsFrom] at h
      split at h
      · simp at h
      · next p' next hs =>
        obtain ⟨tail, more, rfl, rfl, hstep⟩ := stepped hs
        rw [show pos + (tail.length + 1) - pos - 1 = tail.length by omega, regionsFrom_append,
          Nat.add_assoc, Nat.add_comm 1] at h
        refine .step hstep (ih more.length ?_ h rfl)
        rw [← hl, List.length_cons, List.length_append]
        omega

end ComponentDoc.Document
