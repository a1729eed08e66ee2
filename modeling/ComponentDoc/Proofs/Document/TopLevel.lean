import ComponentDoc.Proofs.Document.Alike
import ComponentDoc.Proofs.Document.Blanking
import ComponentDoc.Proofs.Markup.Tiling

/-!
What is at the top level for the splitter and what for the markup parser. The two read tags in ways of
their own. Main statement: where they read every tag of the markup alike, the regions stand in plain
text at the top level of the tree, and no other script or style with content is at the top level.
-/

namespace ComponentDoc.Document

open Text Markup

/-- The tree as far as it was read, against what the splitter knows. -/
structure InStep (p : Progress) (b : Builder) : Prop where
  opens : p.opens = b.opens.map (·.tag.name)
  named : ∀ e ∈ b.opens, IsTagName e.tag.name.toList ∧ e.tag.name ∉ rawNames
  alone : ∀ tag stop children, .element tag stop children ∈ b.root → tag.name ∈ rawNames →
    tag.selfClosing = true
  plain : ∀ r ∈ p.regions.toList, ∃ content span, .text content span ∈ b.root ∧
    '{' ∉ content.toList ∧ r.span.Within span

theorem inStep_empty : InStep ⟨.empty, []⟩ .empty where
  opens := rfl
  named := by simp [Builder.empty]
  alone := by simp [Builder.empty]
  plain := by simp [Regions.toList, Regions.empty]

theorem push_opens_map (b : Builder) (n : Node) :
    (b.push n).opens.map (·.tag) = b.opens.map (·.tag) := by
  obtain ⟨root, opens⟩ := b
  cases opens <;> rfl

theorem mem_push_root {b : Builder} {n m : Node} :
    m ∈ (b.push n).root ↔ m ∈ b.root ∨ (b.opens = [] ∧ m = n) := by
  obtain ⟨root, opens⟩ := b
  cases opens with
  | nil => simp [Builder.push, or_comm]
  | cons e rest => simp [Builder.push]

theorem InStep.push {p p' : Progress} {b : Builder} {n : Node} (h : InStep p b)
    (ho : p'.opens = p.opens)
    (halone : ∀ tag stop children, n = .element tag stop children → b.opens = [] →
      tag.name ∈ rawNames → tag.selfClosing = true)
    (hplain : ∀ r ∈ p'.regions.toList, r ∈ p.regions.toList ∨ (b.opens = [] ∧
      ∃ content span, n = .text content span ∧ '{' ∉ content.toList ∧ r.span.Within span)) :
    InStep p' (b.push n) where
  opens := by
    have hmap := congrArg (List.map StartTag.name) (push_opens_map b n)
    simp only [List.map_map] at hmap
    rw [ho, h.opens]
    exact hmap.symm
  named := by
    intro e he
    have hmem : e.tag ∈ b.opens.map (·.tag) := push_opens_map b n ▸ List.mem_map_of_mem he
    obtain ⟨e', he', htag⟩ := List.mem_map.mp hmem
    rw [← htag]
    exact h.named e' he'
  alone := by
    intro tag stop children hm hraw
    rcases mem_push_root.mp hm with hm | ⟨htop, hn⟩
    · exact h.alone tag stop children hm hraw
    · exact halone tag stop children hn.symm htop hraw
  plain := by
    intro r hr
    rcases hplain r hr with hr | ⟨htop, content, span, rfl, hb, hw⟩
    · obtain ⟨content, span, hm, hb, hw⟩ := h.plain r hr
      exact ⟨content, span, mem_push_root.mpr (Or.inl hm), hb, hw⟩
    · exact ⟨content, span, mem_push_root.mpr (Or.inr ⟨htop, rfl⟩), hb, hw⟩

theorem close_eq_some {name : String} {span : Span} {inner : List Node} {opens rest : List OpenElement}
    {n : Node} (h : Builder.close name span inner opens = some (n, rest)) :
    closeName name (opens.map (·.tag.name)) = rest.map (·.tag.name) ∧ rest ⊆ opens ∧
      ∃ e ∈ opens, e.tag.name = name ∧ ∃ children, n = .element e.tag span.stop children := by
  induction opens generalizing inner with
  | nil => simp [Builder.close] at h
  | cons e opens ih =>
    rw [Builder.close] at h
    split at h
    · next hname =>
      simp only [Option.some.injEq, Prod.mk.injEq] at h
      obtain ⟨rfl, rfl⟩ := h
      refine ⟨?_, List.subset_cons_self _ _, e, List.mem_cons_self, hname, _, rfl⟩
      simp [closeName, hname]
    · next hname =>
      obtain ⟨hclose, hsub, e', he', hn, hchildren⟩ := ih h
      refine ⟨?_, List.subset_cons_of_subset _ hsub, e', List.mem_cons_of_mem _ he', hn, hchildren⟩
      have hmem : name ∈ opens.map (·.tag.name) := List.mem_map.mpr ⟨e', he', hn⟩
      rw [closeName, if_pos hmem] at hclose
      rw [closeName, List.map_cons, if_pos (List.mem_cons_of_mem _ hmem),
        List.dropWhile_cons_of_pos (by simpa using hname), hclose]

theorem isVoid_of_mem_rawNames {name : String} (h : name ∈ rawNames) : isVoid name = false := by
  simp only [rawNames, List.mem_cons, List.not_mem_nil, or_false] at h
  rcases h with rfl | rfl <;> decide

theorem insert_empty (region : Region) :
    ∃ rs, Regions.empty.insert region = .ok rs ∧ rs ≠ .empty := by
  have hok : ∃ rs, Regions.empty.insert region = .ok rs := by
    unfold Regions.insert
    dsimp only
    split
    · exact ⟨_, rfl⟩
    · split
      · exact ⟨_, rfl⟩
      · exact ⟨_, rfl⟩
  obtain ⟨rs, h⟩ := hok
  refine ⟨rs, h, ?_⟩
  rintro rfl
  have hlen := (Regions.insert_perm h).length_eq
  simp [Regions.toList, Regions.empty] at hlen

theorem eq_append_of_trim {name inner more : List Char} (hn : IsTagName name) (ht : trim inner = name)
    (hp : name <+: inner ++ '>' :: more) :
    ∃ blanks, allBlank blanks = true ∧ inner = name ++ blanks := by
  obtain ⟨back, hback⟩ := hp
  obtain ⟨e, rfl⟩ : ∃ e, inner = name ++ e := by
    rcases List.append_eq_append_iff.mp hback with ⟨e, rfl, -⟩ | ⟨e, rfl, he⟩
    · exact ⟨e, rfl⟩
    · cases e with
      | nil => exact ⟨[], by simp⟩
      | cons d ds =>
        obtain ⟨rfl, -⟩ := List.cons.inj he
        exact absurd (List.mem_append_right _ List.mem_cons_self) (hn.not_mem (c := '>') (by decide))
  obtain ⟨c, rest, rfl, -, -⟩ := id hn
  obtain ⟨blanks, hb, he⟩ := exists_trimEnd_append (c :: rest ++ e)
  rw [trim, List.cons_append, trimStart_cons (hn.not_blank c List.mem_cons_self),
    ← List.cons_append] at ht
  rw [ht] at he
  exact ⟨blanks, hb, by rw [List.append_cancel_left he]⟩

section Steps

variable {regions : Regions} {p : Progress} {b b' : Builder} {pos : Nat}

def Advance (regions : Regions) (b' : Builder) (stop : Nat) (more : List Char) : Prop :=
  ∃ p', InStep p' b' ∧ Stands regions p' stop more

theorem InStep.push_over {c : Char} {rest used more : List Char} {n : Node} (h : InStep p b)
    (hs : Stands regions p pos (c :: rest)) (hc : ¬ (c = ' ' ∨ c = '\n'))
    (hu : c :: rest = used ++ more)
    (hstep : step ⟨.empty, p.opens⟩ pos c rest = .ok (⟨.empty, p.opens⟩, pos + used.length))
    (hn : ∀ tag stop children, n = .element tag stop children → b.opens = [] → tag.name ∈ rawNames →
      tag.selfClosing = true) :
    Advance regions (b.push n) (pos + used.length) more := by
  obtain ⟨-, hs'⟩ := hs.over hc hu hstep
  exact ⟨_, h.push rfl hn fun r hr => Or.inl hr, hs'⟩

theorem InStep.add_comment {after used more : List Char} {i : Nat} {n : Node} (h : InStep p b)
    (hs : Stands regions p pos (commentStart ++ after)) (hi : indexOf? commentStop after = some i)
    (hu : commentStart ++ after = used ++ more) (hstop : pos + i + 7 = pos + used.length)
    (hn : ∃ content span, n = .comment content span) :
    Advance regions (b.push n) (pos + used.length) more := by
  obtain ⟨content, span, rfl⟩ := hn
  have hs' : Stands regions p pos ('<' :: '!' :: '-' :: '-' :: after) := hs
  refine h.push_over hs' (by decide) hu ?_ (by simp)
  rw [step_comment, hi, ← hstop]

theorem InStep.add_mustache {inner rest used more : List Char} {n : Node} (h : InStep p b)
    (hs : Stands regions p pos ('{' :: inner ++ rest)) (hbal : Balanced ('{' :: inner))
    (hu : '{' :: inner ++ rest = used ++ more)
    (hlen : pos + ('{' :: inner).length = pos + used.length)
    (hn : ∃ content span, n = .text content span) :
    Advance regions (b.push n) (pos + used.length) more := by
  obtain ⟨content, span, rfl⟩ := hn
  have hs' : Stands regions p pos ('{' :: (inner ++ rest)) := hs
  refine h.push_over hs' (by decide) hu ?_ (by simp)
  rw [step_braces, ← List.cons_append, hbal.skip, hlen]
  rfl

theorem InStep.add_plain {c : Char} {run more : List Char} (h : InStep p b)
    (hs : Stands regions p pos (c :: run ++ more)) (hb : c ≠ '{')
    (hlone : c = '<' → ¬ ['!', '-', '-'] <+: run ++ more ∧ ¬ ['/'] <+: run ++ more ∧
      tagName? (run ++ more) = none)
    (hrun : ∀ d ∈ run, d ≠ '<' ∧ d ≠ '{') (hmore : ∀ d ∈ more.head?, d = '<' ∨ d = '{') :
    Advance regions (b.push (.text (String.ofList (c :: run)) ⟨pos, pos + (c :: run).length⟩))
      (pos + (c :: run).length) more := by
  have hthrough : ∃ p', p'.opens = p.opens ∧ Stands regions p' (pos + (c :: run).length) more ∧
      ∀ r ∈ p'.regions.toList, r ∈ p.regions.toList ∨
        (p.opens = [] ∧ r.span.Within ⟨pos, pos + (c :: run).length⟩) := by
    by_cases hc : c = '<'
    · subst hc
      obtain ⟨hcomment, hslash, hname⟩ := hlone rfl
      have hl : Lone (run ++ more) := by
        refine ⟨hcomment, hname, fun after he => absurd ⟨after, ?_⟩ hslash⟩
        rw [he]
        rfl
      have hsplit : '<' :: (run ++ more) = ['<'] ++ (run ++ more) := rfl
      obtain ⟨-, hs'⟩ := hs.over (by decide) hsplit (step_lone _ _ hl)
      obtain ⟨p', ho, hstands, hregions⟩ := hs'.through hrun hmore
      rw [List.length_singleton, Nat.add_assoc, Nat.add_comm 1] at hstands hregions
      refine ⟨p', ho, hstands, fun r hr => (hregions r hr).imp_right ?_⟩
      exact fun ⟨htop, hle, hlast⟩ => ⟨htop, (Nat.le_succ pos).trans hle, hlast⟩
    · refine hs.through (fun d hd => ?_) hmore
      rcases List.mem_cons.mp hd with rfl | hd
      · exact ⟨hc, hb⟩
      · exact hrun d hd
  obtain ⟨p', ho, hstands, hregions⟩ := hthrough
  refine ⟨p', h.push ho (by simp) fun r hr => (hregions r hr).imp_right ?_, hstands⟩
  rintro ⟨htop, hwithin⟩
  refine ⟨List.map_eq_nil_iff.mp (h.opens.symm.trans htop), _, _, rfl, ?_, hwithin⟩
  rw [String.toList_ofList, List.mem_cons, not_or]
  exact ⟨Ne.symm hb, fun hm => (hrun _ hm).2 rfl⟩

theorem InStep.add_endTag {after used more : List Char} {i : Nat} {name : String} {span : Span}
    (h : InStep p b) (hs : Stands regions p pos ('<' :: '/' :: after))
    (hi : indexOf? ['>'] ('<' :: '/' :: after) = some i)
    (hname : name = String.ofList (trim (slice 2 i ('<' :: '/' :: after))))
    (hu : '<' :: '/' :: after = used ++ more) (hstop : pos + i + 1 = pos + used.length)
    (hp : name.toList <+: after) (hb : b.add (.endTag name span) = .ok b') :
    Advance regions b' (pos + used.length) more := by
  rw [Builder.add] at hb
  split at hb
  · next n opens hclose =>
    cases hb
    obtain ⟨hopens, hsub, e, he, rfl, children, rfl⟩ := close_eq_some hclose
    obtain ⟨hn, hraw⟩ := h.named e he
    obtain ⟨inner, back, rfl, rfl, hgt, hslice⟩ := closing_of_indexOf? hi
    rw [hslice] at hname
    have htrim : trim inner = e.tag.name.toList := by rw [hname, String.toList_ofList]
    obtain ⟨blanks, hblanks, rfl⟩ := eq_append_of_trim hn htrim hp
    have hnext : ∀ d ∈ (blanks ++ '>' :: back).head?, isTagNameChar d = false := by
      cases blanks with
      | nil => simp only [List.nil_append, List.head?_cons, Option.mem_some_iff, forall_eq']; decide
      | cons d ds =>
        simp only [List.cons_append, List.head?_cons, Option.mem_some_iff, forall_eq']
        by_contra hc
        have hblank := isBlank_eq_false_of_isTagNameChar (Bool.not_eq_false _ ▸ hc)
        exact absurd (List.all_eq_true.mp hblanks d List.mem_cons_self) (by simp [hblank])
    have hgt' : '>' ∉ blanks := fun hm => hgt (List.mem_append_right _ hm)
    have hstep : step ⟨.empty, p.opens⟩ pos '<' ('/' :: (e.tag.name.toList ++ blanks ++ '>' :: back)) =
        .ok (⟨.empty, opens.map (·.tag.name)⟩, pos + used.length) := by
      rw [List.append_assoc, ← List.cons_append, step_endTag _ pos hn hnext,
        indexOf?_append_singleton hgt', String.ofList_toList, h.opens, hopens, ← hstop]
      simp only [List.length_append]
      congr 2
      omega
    obtain ⟨-, hs'⟩ := hs.over (by decide) hu hstep
    have hinner : InStep ⟨p.regions, opens.map (·.tag.name)⟩ { b with opens } :=
      { h with opens := rfl, named := fun e he => h.named e (hsub he) }
    refine ⟨_, hinner.push rfl ?_ fun r hr => Or.inl hr, hs'⟩
    intro tag stop children' hn' _ hraw'
    cases hn'
    exact absurd hraw' hraw
  · simp at hb

theorem InStep.add_opening {name rest used more : List Char} {t : Token} (h : InStep p b)
    (hs : Stands regions p pos ('<' :: name ++ rest)) (hn : IsTagName name)
    (hm : ∀ d ∈ rest.head?, isTagNameChar d = false)
    (ht : startToken pos name ('<' :: name ++ rest) = .ok t)
    (hu : '<' :: name ++ rest = used ++ more) (hstop : t.stop = pos + used.length)
    (ha : AlikeAt ('<' :: name ++ rest) t) (hb : b.add t = .ok b') :
    Advance regions b' (pos + used.length) more := by
  have hdrop : ('<' :: name ++ rest).drop (1 + name.length) = rest := by
    rw [Nat.add_comm]
    simp
  cases startToken_started ht with
  | @tag r hr plain =>
    simp only [AlikeAt, String.toList_ofList, hdrop] at ha
    obtain ⟨inside, back, rfl, hend, hrest⟩ := isTagRest_of_tagEnd ha hm
    have hstep := step_opening ⟨.empty, p.opens⟩ pos hn hrest back
    rw [← hend, show r.stop = pos + used.length from hstop] at hstep
    rw [Builder.add] at hb
    by_cases hsingle : (r.selfClosing || isVoid (String.ofList name)) = true
    · rw [if_pos hsingle] at hstep hb
      cases hb
      refine h.push_over hs (by decide) hu hstep ?_
      intro tag stop children htag _ hraw
      cases htag
      rwa [isVoid_of_mem_rawNames hraw, Bool.or_false] at hsingle
    · have hraw : String.ofList name ∉ rawNames := by
        simp only [Bool.or_eq_true, not_or] at hsingle
        exact plain.resolve_left hsingle.1
      rw [if_neg hsingle, if_pos hraw] at hstep
      rw [if_neg hsingle] at hb
      cases hb
      obtain ⟨-, hs'⟩ := hs.over (by decide) hu hstep
      refine ⟨⟨p.regions, String.ofList name :: p.opens⟩, ⟨?_, ?_, h.alone, h.plain⟩, hs'⟩
      · rw [List.map_cons, ← h.opens]
      · intro e he
        rcases List.mem_cons.mp he with rfl | he
        · exact ⟨by rwa [String.toList_ofList], hraw⟩
        · exact h.named e he
  | @raw r before length hr paired raw found =>
    simp only [AlikeAt, String.toList_ofList, hdrop] at ha
    obtain ⟨inside, back, rfl, hend, hrest⟩ := isTagRest_of_tagEnd ha hm
    have hstep := step_opening ⟨.empty, p.opens⟩ pos hn hrest back
    have hback : ('<' :: name ++ (inside ++ back)).drop (r.stop - pos) = back := by
      rw [hend, show pos + 1 + name.length + inside.length - pos = name.length + 1 + inside.length by
        omega, ← List.drop_drop]
      simp
    have hnext : r.stop + before + length = pos + used.length := hstop
    rw [hback] at found
    rw [paired, isVoid_of_mem_rawNames raw, if_neg (by simp), if_neg (not_not_intro raw), found, ← hend]
      at hstep
    dsimp only at hstep
    rw [hnext] at hstep
    cases htop : p.opens with
    | nil =>
      obtain ⟨rs, hinsert, hne⟩ := insert_empty (regionAt pos name inside back before length)
      simp only [htop, List.isEmpty_nil, ↓reduceIte, hinsert] at hstep
      rw [← htop] at hstep
      exact absurd (hs.over (by decide) hu hstep).1 hne
    | cons o os =>
      simp only [htop, List.isEmpty_cons, Bool.false_eq_true, ↓reduceIte] at hstep
      rw [← htop] at hstep
      cases hb
      refine h.push_over hs (by decide) hu hstep ?_
      intro _ _ _ _ hopens
      rw [h.opens, hopens] at htop
      simp at htop

theorem InStep.add {c : Char} {rest used more : List Char} {t : Token} (h : InStep p b)
    (hs : Stands regions p pos (c :: rest)) (hread : nextToken pos c rest = .ok t)
    (hu : c :: rest = used ++ more) (hstop : t.stop = pos + used.length) (ha : AlikeAt (c :: rest) t)
    (hb : b.add t = .ok b') : Advance regions b' (pos + used.length) more := by
  have hscan := nextToken_scanned hread
  generalize c :: rest = text at hs hu ha hscan
  cases hscan with
  | comment stop =>
    cases hb
    exact h.add_comment hs stop hu hstop ⟨_, _, rfl⟩
  | endTag stop => exact h.add_endTag hs stop rfl hu hstop ha hb
  | opening isName whole read => exact h.add_opening hs isName whole read hu hstop ha hb
  | mustache rest balanced =>
    cases hb
    exact h.add_mustache hs balanced hu hstop ⟨_, _, rfl⟩
  | plain notBrace lone inside after =>
    cases hb
    obtain ⟨rfl, rfl⟩ := List.append_inj hu (Nat.add_left_cancel hstop)
    exact h.add_plain hs notBrace lone inside after

end Steps

theorem InStep.ofTokens {regions : Regions} {p : Progress} {b b' : Builder} {pos : Nat}
    {markup text : List Char} {ts : List Token} (before : List Char) (hr : TokenRun pos text ts)
    (h : InStep p b) (hs : Stands regions p pos text) (hp : pos = before.length)
    (hm : markup = before ++ text) (ha : ∀ t ∈ ts, ReadAlike markup t) (hb : Markup.ofTokens b ts = .ok b') :
    ∃ p', InStep p' b' ∧ Stands regions p' markup.length [] := by
  -- At each token both are at `pos` and know the same open elements.
  induction hr generalizing p b before with
  | done pos =>
    cases hb
    rw [List.append_nil] at hm
    exact ⟨p, h, by rwa [hm, ← hp]⟩
  | @token pos c rest used more t ts read split stop nonempty covers tail ih =>
    rw [Markup.ofTokens] at hb
    split at hb
    · simp at hb
    · next b₁ hadd =>
      have halike : AlikeAt (c :: rest) t := by
        have ht := ha t List.mem_cons_self
        rwa [ReadAlike, tokenStart_eq covers, hp, hm, List.drop_left] at ht
      obtain ⟨p₁, h₁, hs₁⟩ := h.add hs read split stop halike hadd
      refine ih (before ++ used) h₁ hs₁ ?_ ?_ (fun t ht => ha t (List.mem_cons_of_mem _ ht)) hb
      · rw [hp, List.length_append]
      · rw [hm, split, List.append_assoc]

theorem Stands.regions_eq {regions : Regions} {p : Progress} {pos : Nat} (h : Stands regions p pos []) :
    p.regions = regions := by
  obtain ⟨⟨text, hw, hm⟩, -⟩ := h
  cases hw with
  | done => rfl
  | step => simp [Document.blankOut] at hm

theorem inStep_of_parse {source : List Char} {parts : Parts} {nodes : List Node}
    (hsplit : split source = .ok parts) (hparse : parse parts.markup = .ok nodes)
    (halike : ∀ t ∈ (tokens parts.markup).1, ReadAlike parts.markup t) :
    ∃ p b, InStep p b ∧ p.regions = parts.regions ∧ nodes = b.root.reverse := by
  obtain ⟨hregions, hmarkup⟩ := split_eq_ok_iff.mp hsplit
  have hstands : Stands parts.regions ⟨.empty, []⟩ 0 parts.markup :=
    ⟨⟨source, walk_of_regionsFrom hregions, hmarkup.symm⟩,
      by simp [Progress.Passed, Regions.toList, Regions.empty]⟩
  obtain ⟨ts, b, htokens, hr, hb, -, rfl⟩ := parse_eq_ok hparse
  rw [htokens] at halike
  obtain ⟨p', h, hs⟩ := inStep_empty.ofTokens [] hr hstands rfl rfl halike hb
  exact ⟨p', b, h, hs.regions_eq, rfl⟩

theorem regions_plain_and_alone {source : List Char} {parts : Parts} {nodes : List Node}
    (hsplit : split source = .ok parts) (hparse : parse parts.markup = .ok nodes)
    (halike : ∀ t ∈ (tokens parts.markup).1, ReadAlike parts.markup t) :
    (∀ r ∈ parts.regions.toList, ∃ content span, .text content span ∈ nodes ∧ '{' ∉ content.toList ∧
      r.span.Within span) ∧
    ∀ tag stop children, .element tag stop children ∈ nodes → tag.name ∈ rawNames →
      tag.selfClosing = true := by
  obtain ⟨p, b, h, hregions, rfl⟩ := inStep_of_parse hsplit hparse halike
  rw [← hregions]
  simp only [List.mem_reverse]
  exact ⟨h.plain, h.alone⟩

theorem regions_plain_and_alone_nested_script : ∃ parts nodes,
    split "<script>a</script>\n<div b=\"{c}\"><script>d</script></div>".toList = .ok parts ∧
      parse parts.markup = .ok nodes ∧
      (∀ t ∈ (tokens parts.markup).1, ReadAlike parts.markup t) ∧
      (∀ r ∈ parts.regions.toList, ∃ content span, .text content span ∈ nodes ∧ '{' ∉ content.toList ∧
        r.span.Within span) ∧
      ∀ tag stop children, .element tag stop children ∈ nodes → tag.name ∈ rawNames →
        tag.selfClosing = true := by
  have hmarkup : (split "<script>a</script>\n<div b=\"{c}\"><script>d</script></div>".toList).map
      Parts.markup = .ok "                  \n<div b=\"{c}\"><script>d</script></div>".toList := by
    decide +kernel
  have hnodes : (parse "                  \n<div b=\"{c}\"><script>d</script></div>".toList).map
      List.length = .ok 2 := by
    decide +kernel
  obtain ⟨parts, hs, hm⟩ := map_eq_ok.mp hmarkup
  obtain ⟨nodes, hp, -⟩ := map_eq_ok.mp hnodes
  rw [← hm] at hp
  have halike : ∀ t ∈ (tokens parts.markup).1, ReadAlike parts.markup t := by
    rw [hm]
    decide +kernel
  exact ⟨parts, nodes, hs, hp, halike, regions_plain_and_alone hs hp halike⟩

/-- Values without their own quote, unquoted ones without a brace and without a slash before the end of the
tag, and end tags without a blank before the name leave the two no choice. -/
theorem plain_and_alone_of_unambiguous {source : List Char} {parts : Parts} {nodes : List Node}
    (hsplit : split source = .ok parts) (hparse : parse parts.markup = .ok nodes)
    (hplain : ∀ t ∈ (tokens parts.markup).1, TokenUnambiguous parts.markup t) :
    (∀ r ∈ parts.regions.toList, ∃ content span, .text content span ∈ nodes ∧ '{' ∉ content.toList ∧
      r.span.Within span) ∧
    ∀ tag stop children, .element tag stop children ∈ nodes → tag.name ∈ rawNames →
      tag.selfClosing = true := by
  obtain ⟨ts, -, htokens, -⟩ := parse_eq_ok hparse
  have halike : ∀ t ∈ ts, ReadAlike parts.markup t :=
    readAlike_of_unambiguous htokens (by rwa [htokens] at hplain)
  obtain ⟨p, b, h, hregions, rfl⟩ := inStep_of_parse hsplit hparse (by rwa [htokens])
  rw [← hregions]
  simp only [List.mem_reverse]
  exact ⟨h.plain, h.alone⟩

/-- The splitter takes the slash of the address for the one that closes the tag, the parser reads it as
part of the value. The script is a region, yet it stands inside the element. -/
theorem region_in_unquoted_link : ∃ parts nodes,
    split "<a href=/x/><script>1</script></a>".toList = .ok parts ∧ parse parts.markup = .ok nodes ∧
      ∃ r ∈ parts.regions.toList, ∀ content span, .text content span ∈ nodes →
        ¬ r.span.Within span := by
  have hsplit : (split "<a href=/x/><script>1</script></a>".toList).map
      (fun parts => (parts.markup, parts.regions.toList.map Region.span)) =
        .ok ("<a href=/x/>                  </a>".toList, [⟨12, 30⟩]) := by
    decide +kernel
  have hparse : (parse "<a href=/x/>                  </a>".toList).map
      (fun nodes => nodes.any fun n => match n with | .text .. => true | _ => false) = .ok false := by
    decide +kernel
  obtain ⟨parts, hs, he⟩ := map_eq_ok.mp hsplit
  obtain ⟨nodes, hp, hnone⟩ := map_eq_ok.mp hparse
  obtain ⟨hm, hspans⟩ := Prod.mk.inj he
  have hmem : (⟨12, 30⟩ : Span) ∈ parts.regions.toList.map Region.span := by simp [hspans]
  obtain ⟨r, hr, -⟩ := List.mem_map.mp hmem
  rw [← hm] at hp
  refine ⟨parts, nodes, hs, hp, r, hr, fun content span ht => ?_⟩
  exact absurd rfl (List.any_eq_false.mp hnone _ ht)

end ComponentDoc.Document
