import ComponentDoc.Proofs.Document.Walk

namespace ComponentDoc.Document

open Text Markup

def Disjoint (s t : Span) : Prop := s.stop ≤ t.start ∨ t.stop ≤ s.start

theorem Disjoint.symm {s t : Span} (h : Disjoint s t) : Disjoint t s := Or.symm h

/-- The region is what stands in the source at its span: a start tag, the content, and the first end
tag after the start tag. -/
structure Region.StandsIn (r : Region) (source : List Char) : Prop where
  inside : r.span.stop ≤ source.length
  opening : ∃ inner, (⟨r.span.start, r.contentStart⟩ : Span).of source =
    '<' :: r.tag.toList ++ inner ++ ['>']
  content : (⟨r.contentStart, r.contentStop⟩ : Span).of source = r.content.toList
  closing : IsEndTag r.tag.toList ((⟨r.contentStop, r.span.stop⟩ : Span).of source)
  first : ∀ i j, r.contentStart ≤ i → IsEndTag r.tag.toList ((⟨i, j⟩ : Span).of source) →
    r.contentStop ≤ i

structure Regions.Sorted (rs : Regions) : Prop where
  script : ∀ r ∈ rs.script, r.tag = "script" ∧ r.attributes.get? "context" ≠ some "module"
  moduleScript : ∀ r ∈ rs.moduleScript, r.tag = "script" ∧ r.attributes.get? "context" = some "module"
  style : ∀ r ∈ rs.style, r.tag = "style"

theorem Regions.insert_perm {rs rs' : Regions} {region : Region} (h : rs.insert region = .ok rs') :
    rs'.toList.Perm (region :: rs.toList) := by
  obtain ⟨script, moduleScript, style⟩ := rs
  unfold Regions.insert at h
  dsimp only at h
  split at h
  · cases style with
    | some r => simp at h
    | none =>
      cases h
      simp only [Regions.toList, Option.toList_none, Option.toList_some, List.append_nil]
      exact List.perm_append_singleton _ _
  · split at h
    · cases moduleScript with
      | some r => simp at h
      | none =>
        cases h
        simp only [Regions.toList, Option.toList_none, Option.toList_some, List.append_nil,
          List.append_assoc]
        exact List.perm_middle
    · cases script with
      | some r => simp at h
      | none =>
        cases h
        exact List.Perm.refl _

theorem Regions.Sorted.insert {rs rs' : Regions} {region : Region} (hs : rs.Sorted)
    (ht : region.tag ∈ rawNames) (h : rs.insert region = .ok rs') : rs'.Sorted := by
  obtain ⟨hscript, hmodule, hstyle⟩ := hs
  obtain ⟨script, moduleScript, style⟩ := rs
  unfold Regions.insert at h
  dsimp only at h
  split at h
  · next htag =>
    cases style with
    | some r => simp at h
    | none =>
      cases h
      exact ⟨hscript, hmodule, by simpa using htag⟩
  · next htag =>
    have hscriptTag : region.tag = "script" := by
      simpa [rawNames, htag] using ht
    split at h
    · next hcontext =>
      cases moduleScript with
      | some r => simp at h
      | none =>
        cases h
        exact ⟨hscript, by simp [hscriptTag, hcontext], hstyle⟩
    · next hcontext =>
      cases script with
      | some r => simp at h
      | none =>
        cases h
        exact ⟨by simp [hscriptTag, hcontext], hmodule, hstyle⟩

theorem Finds.standsIn {source before used rest : List Char} {region : Region}
    (h : Finds before.length used rest region) (he : source = before ++ used ++ rest) :
    region.StandsIn source := by
  obtain ⟨inner, closing, hu, hstart, hc, hfirst⟩ := h.split
  generalize hopening : '<' :: region.tag.toList ++ inner ++ ['>'] = opening at hu hstart
  have hspan := h.span
  subst hu he
  have hcontentStart : region.contentStart = (before ++ opening).length := by
    rw [hstart, List.length_append]
  have hcontentStop : region.contentStop = (before ++ opening ++ region.content.toList).length := by
    simp only [Region.contentStop, hcontentStart, List.length_append, String.length_toList]
  have hstop : region.span.stop = region.contentStop + closing.length := by
    rw [hspan, hcontentStop]
    simp only [List.length_append]
    omega
  constructor
  case inside =>
    rw [hspan]
    simp only [List.length_append]
    omega
  case opening =>
    refine ⟨inner, ?_⟩
    rw [hopening, hspan]
    have hsplit : before ++ (opening ++ region.content.toList ++ closing) ++ rest =
        before ++ opening ++ (region.content.toList ++ closing ++ rest) := by simp
    rw [hsplit]
    exact Span.of_append _ rfl hstart
  case content =>
    have hsplit : before ++ (opening ++ region.content.toList ++ closing) ++ rest =
        before ++ opening ++ region.content.toList ++ (closing ++ rest) := by simp
    rw [hsplit]
    exact Span.of_append _ hcontentStart (by rw [Region.contentStop, String.length_toList])
  case closing =>
    have hsplit : before ++ (opening ++ region.content.toList ++ closing) ++ rest =
        before ++ opening ++ region.content.toList ++ closing ++ rest := by simp
    rw [hsplit, Span.of_append rest hcontentStop hstop]
    exact hc
  case first =>
    intro i j hi ht
    have hdrop : (before ++ (opening ++ region.content.toList ++ closing) ++ rest).drop
        region.contentStart = region.content.toList ++ closing ++ rest := by
      rw [hcontentStart, show before ++ (opening ++ region.content.toList ++ closing) ++ rest =
        before ++ opening ++ (region.content.toList ++ closing ++ rest) by simp, List.drop_left]
    obtain ⟨k, rfl⟩ := Nat.exists_eq_add_of_le hi
    rw [Span.of, ← List.drop_drop, hdrop] at ht
    generalize region.content.toList ++ closing ++ rest = after at hfirst ht
    have hle := hfirst (after.take k) _ ((after.drop k).drop (j - (region.contentStart + k)))
      (by
        rw [List.append_assoc, Span.length, List.take_append_drop, List.take_append_drop]) ht
    rw [Region.contentStop]
    exact Nat.add_le_add_left (hle.trans (List.length_take_le k after)) _

/-- What is known of the regions when the source was read up to `pos`. -/
structure Regions.Found (source : List Char) (pos : Nat) (rs : Regions) : Prop where
  sorted : rs.Sorted
  stands : ∀ r ∈ rs.toList, r.StandsIn source
  passed : ∀ r ∈ rs.toList, r.span.stop ≤ pos
  disjoint : rs.toList.Pairwise fun r r' => Disjoint r.span r'.span

theorem Regions.found_empty (source : List Char) (pos : Nat) : Regions.empty.Found source pos where
  sorted := ⟨by simp [empty], by simp [empty], by simp [empty]⟩
  stands := by simp [toList, empty]
  passed := by simp [toList, empty]
  disjoint := by simp [toList, empty]

theorem Regions.Found.mono {source : List Char} {pos next : Nat} {rs : Regions}
    (h : rs.Found source pos) (hle : pos ≤ next) : rs.Found source next :=
  { h with passed := fun r hr => (h.passed r hr).trans hle }

theorem Regions.Found.insert {source before used rest : List Char} {rs rs' : Regions} {region : Region}
    (hf : rs.Found source before.length) (he : source = before ++ used ++ rest)
    (hr : Finds before.length used rest region) (h : rs.insert region = .ok rs') :
    rs'.Found source (before.length + used.length) := by
  have hperm := Regions.insert_perm h
  have hspan := hr.span
  constructor
  case sorted => exact hf.sorted.insert hr.tag h
  case stands =>
    intro r hm
    rcases List.mem_cons.mp (hperm.mem_iff.mp hm) with rfl | hm
    · exact hr.standsIn he
    · exact hf.stands r hm
  case passed =>
    intro r hm
    rcases List.mem_cons.mp (hperm.mem_iff.mp hm) with rfl | hm
    · rw [hspan]
    · exact (hf.passed r hm).trans (Nat.le_add_right _ _)
  case disjoint =>
    rw [hperm.pairwise_iff Disjoint.symm, List.pairwise_cons]
    refine ⟨fun r hm => Or.inr ?_, hf.disjoint⟩
    rw [hspan]
    exact hf.passed r hm

theorem Walk.found {source text : List Char} {p : Progress} {pos : Nat} {regions : Regions}
    (before : List Char) (hw : Walk p pos text regions) (hp : pos = before.length)
    (he : source = before ++ text) (hf : p.regions.Found source pos) :
    regions.Found source source.length := by
  induction hw generalizing before with
  | done p pos =>
    rw [List.append_nil] at he
    rwa [he, ← hp, ← he]
  | @step p p' pos c tail rest regions stepped walk ih =>
    subst hp
    have he' : source = before ++ c :: tail ++ rest := by simp [he]
    refine ih (before ++ c :: tail) (by simp) he' ?_
    cases stepped with
    | skipped => exact hf.mono (Nat.le_add_right _ _)
    | lone => exact hf.mono (Nat.le_add_right _ _)
    | found _ finds insert => exact hf.insert he' finds insert

theorem blankOut_getElem? (spans : List Span) (pos i : Nat) (text : List Char) :
    (blankOut spans pos text)[i]? = text[i]?.map fun c =>
      if c ≠ '\n' ∧ ∃ s ∈ spans, s.start ≤ pos + i ∧ pos + i < s.stop then ' ' else c := by
  induction text generalizing pos i with
  | nil => simp [blankOut]
  | cons c rest ih =>
    cases i with
    | zero => simp [blankOut]
    | succ i =>
      rw [blankOut, List.getElem?_cons_succ, ih, List.getElem?_cons_succ, Nat.add_right_comm]
      rfl

theorem blankOut_length (spans : List Span) (pos : Nat) (text : List Char) :
    (blankOut spans pos text).length = text.length := by
  induction text generalizing pos with
  | nil => rfl
  | cons c rest ih => rw [blankOut, List.length_cons, ih, List.length_cons]

theorem split_eq_ok_iff {source : List Char} {parts : Parts} :
    split source = .ok parts ↔ regionsFrom ⟨.empty, []⟩ 0 0 source = .ok parts.regions ∧
      parts.markup = blankOut (parts.regions.toList.map Region.span) 0 source := by
  rw [split]
  cases regionsFrom ⟨.empty, []⟩ 0 0 source with
  | error e => simp [bind, Except.bind]
  | ok regions =>
    obtain ⟨markup, regions'⟩ := parts
    simp only [bind, Except.bind, pure, Except.pure, Except.ok.injEq, Parts.mk.injEq]
    constructor
    · rintro ⟨rfl, rfl⟩
      exact ⟨rfl, rfl⟩
    · rintro ⟨rfl, rfl⟩
      exact ⟨rfl, rfl⟩

theorem split_found {source : List Char} {parts : Parts} (h : split source = .ok parts) :
    parts.regions.Found source source.length :=
  (walk_of_regionsFrom (split_eq_ok_iff.mp h).1).found [] rfl rfl (Regions.found_empty source 0)

theorem split_places {source : List Char} {parts : Parts} (h : split source = .ok parts) :
    parts.regions.Sorted ∧
      (∀ r ∈ parts.regions.toList, r.StandsIn source) ∧
      (parts.regions.toList.Pairwise fun r r' => Disjoint r.span r'.span) ∧
      parts.markup.length = source.length ∧
      ∀ i, parts.markup[i]? = source[i]?.map fun c =>
        if c ≠ '\n' ∧ ∃ r ∈ parts.regions.toList, r.span.start ≤ i ∧ i < r.span.stop then ' ' else c := by
  obtain ⟨hr, hm⟩ := split_eq_ok_iff.mp h
  have hf := (walk_of_regionsFrom hr).found [] rfl rfl (Regions.found_empty source 0)
  refine ⟨hf.sorted, hf.stands, hf.disjoint, ?_, fun i => ?_⟩
  · rw [hm, blankOut_length]
  · rw [hm, blankOut_getElem?]
    simp only [Nat.zero_add, List.mem_map, exists_exists_and_eq_and]

theorem split_places_script_and_style : ∃ parts,
    split "<script>a</script>\n<p>{b}</p><style>\n</style >".toList = .ok parts ∧
      parts.regions.toList.length = 2 ∧ parts.markup.length = 46 ∧
      ∀ r ∈ parts.regions.toList,
        r.StandsIn "<script>a</script>\n<p>{b}</p><style>\n</style >".toList := by
  have h : (split "<script>a</script>\n<p>{b}</p><style>\n</style >".toList).map
      (fun parts => parts.regions.toList.length) = .ok 2 := by decide +kernel
  obtain ⟨parts, hs, hl⟩ := map_eq_ok.mp h
  obtain ⟨-, hstands, -, hlength, -⟩ := split_places hs
  exact ⟨parts, hs, hl, hlength, hstands⟩

end ComponentDoc.Document
