import ComponentDoc.Proofs.Markup.Attribute
import ComponentDoc.Proofs.Markup.Tiling

namespace ComponentDoc

/-- The error tells a place in the document, or an open string beyond a backslash at its end. -/
inductive ParseError.PointsInto (document : List Char) : ParseError → Prop
  | inside {cause : ParseCause} {start stop : Nat} (ordered : start ≤ stop) (inside : stop ≤ document.length) :
      PointsInto document (.at cause start stop)
  | beyond {start : Nat} (started : start < document.length) (backslash : document.getLast? = some '\\') :
      PointsInto document (.at .openString start (document.length + 1))

def StandsFrom (document : List Char) (pos : Nat) (text : List Char) : Prop :=
  ∃ before, document = before ++ text ∧ before.length = pos

theorem standsFrom_zero (document : List Char) : StandsFrom document 0 document := ⟨[], rfl, rfl⟩

theorem StandsFrom.drop {document used rest : List Char} {pos : Nat} (h : StandsFrom document pos (used ++ rest)) :
    StandsFrom document (pos + used.length) rest := by
  obtain ⟨before, rfl, rfl⟩ := h
  exact ⟨before ++ used, by simp, by simp⟩

theorem StandsFrom.tail {document rest : List Char} {pos : Nat} {c : Char} (h : StandsFrom document pos (c :: rest)) :
    StandsFrom document (pos + 1) rest :=
  @StandsFrom.drop document [c] rest pos h

theorem StandsFrom.length_eq {document text : List Char} {pos : Nat} (h : StandsFrom document pos text) :
    document.length = pos + text.length := by
  obtain ⟨before, rfl, rfl⟩ := h
  exact List.length_append

theorem StandsFrom.pos_le {document text : List Char} {pos : Nat} (h : StandsFrom document pos text) :
    pos ≤ document.length :=
  Nat.le.intro h.length_eq.symm

theorem StandsFrom.behind_name {document name more : List Char} {pos : Nat}
    (h : StandsFrom document pos ('<' :: name ++ more)) :
    ('<' :: name ++ more).drop (name.length + 1) = more ∧ StandsFrom document (pos + 1 + name.length) more := by
  constructor
  · simp
  · rw [show pos + 1 + name.length = pos + ('<' :: name).length by rw [List.length_cons]; omega]
    exact h.drop

theorem StandsFrom.trimStart {document text : List Char} {pos : Nat} (h : StandsFrom document pos text) :
    StandsFrom document (pos + (text.takeWhile Text.isBlank).length) (Text.trimStart text) :=
  StandsFrom.drop (by rwa [Text.trimStart, List.takeWhile_append_dropWhile])

theorem ParseError.PointsInto.beyond_of_backslash {document : List Char} {start pos : Nat}
    (h : StandsFrom document pos ['\\']) (hstart : start ≤ pos) :
    PointsInto document (.at .openString start (pos + 2)) := by
  obtain ⟨before, rfl, rfl⟩ := h
  have hbeyond : PointsInto (before ++ ['\\']) (.at .openString start ((before ++ ['\\']).length + 1)) :=
    .beyond (by rw [List.length_append]; exact Nat.lt_succ_of_le hstart) (by simp)
  simpa using hbeyond

namespace Markup

open Text

def Frame.BeganBy (pos : Nat) : Frame → Prop
  | .braces start _ | .template start | .quoted _ start => start ≤ pos
  | .lineComment | .blockComment => True

def BeganBy (pos : Nat) (frames : List Frame) : Prop := ∀ f ∈ frames, f.BeganBy pos

theorem Frame.BeganBy.mono {pos later : Nat} {f : Frame} (h : f.BeganBy pos) (hle : pos ≤ later) :
    f.BeganBy later := by
  cases f with
  | braces start _ | template start | quoted _ start => exact Nat.le_trans h hle
  | lineComment | blockComment => exact trivial

theorem BeganBy.mono {pos later : Nat} {frames : List Frame} (h : BeganBy pos frames) (hle : pos ≤ later) :
    BeganBy later frames :=
  fun f hf => (h f hf).mono hle

theorem unfinished_pointsInto {document : List Char} {stop : Nat} {frames : List Frame} (h : BeganBy stop frames)
    (hstop : stop ≤ document.length) : (unfinished stop frames).PointsInto document := by
  induction frames with
  | nil => exact .inside (Nat.le_refl _) hstop
  | cons f frames ih =>
    have hf : f.BeganBy stop := h f List.mem_cons_self
    cases f with
    | braces start _ | template start | quoted _ start => exact .inside hf hstop
    | lineComment | blockComment => exact ih (List.forall_mem_of_forall_mem_cons h)

theorem Frame.Step.beganBy {pos : Nat} {next : Option Char} {f : Frame} {now below : List Frame} {used : List Char}
    (h : f.Step pos next used now) (hf : Markup.BeganBy pos (f :: below)) :
    Markup.BeganBy (pos + used.length) (now ++ below) := by
  obtain ⟨hfirst, hbelow⟩ := List.forall_mem_cons.mp (hf.mono (Nat.le_add_right pos used.length))
  refine List.forall_mem_append.mpr ⟨?_, hbelow⟩
  have hlength := h.length_pos
  cases h with
  | stringEscape | stringPlain | templateEscape | templatePlain | linePlain | blockPlain | other =>
    simpa using hfirst
  | stringClose | templateClose | lineEnd | blockEnd | lastBrace => nofun
  | substitution => simpa using ⟨Nat.le_succ (pos + 1), hfirst⟩
  | openString | openTemplate => simpa using ⟨Nat.le_succ pos, hfirst⟩
  | openLine | openBlock => simpa using ⟨trivial, hfirst⟩
  | openBrace | closeBrace => exact List.forall_mem_singleton.mpr hfirst

theorem Frame.Stops.pointsInto {document text : List Char} {f : Frame} {pos : Nat} {e : ParseError}
    (h : f.Stops pos text e) (hf : f.BeganBy pos) (ht : StandsFrom document pos text) : e.PointsInto document := by
  cases h with
  | stringEnd => exact .beyond_of_backslash ht hf
  | lineFeed => exact .inside hf ht.pos_le
  | templateEnd => exact .inside (Nat.le_succ_of_le hf) ht.tail.pos_le

theorem ScanRun.pointsInto {document text : List Char} {frames : List Frame} {pos : Nat} {r : Except ParseError Nat}
    {e : ParseError} (h : ScanRun frames pos text r) (hr : r = .error e) (hf : BeganBy pos frames)
    (ht : StandsFrom document pos text) : e.PointsInto document := by
  induction h with
  | closed => cases hr
  | unfinished =>
    cases hr
    exact unfinished_pointsInto hf ht.pos_le
  | stops hstops =>
    cases hr
    exact hstops.pointsInto (hf _ List.mem_cons_self) ht
  | step head tail ih => exact ih hr (head.beganBy hf) ht.drop

theorem skipExpression_pointsInto {document text : List Char} {pos : Nat} {e : ParseError}
    (ht : StandsFrom document pos text) (h : skipExpression pos text = .error e) : e.PointsInto document := by
  have hbegan : BeganBy pos [.braces pos 0] := List.forall_mem_singleton.mpr (Nat.le_refl pos)
  exact (scanRun_scan (grounded_braces pos 0)).pointsInto h hbegan ht

theorem quotedEnd_pointsInto {document text : List Char} {quote : Char} {k pos : Nat} {e : ParseError}
    (ht : StandsFrom document pos text) (h : quotedEnd quote k pos text = .error e) : e.PointsInto document := by
  fun_induction quotedEnd quote k pos text with
  | case1 k pos =>
    cases h
    exact .inside (Nat.le_refl pos) ht.pos_le
  | case2 _ _ _ _ ih => exact ih ht.tail h
  | case3 pos rest e hs =>
    cases h
    exact skipExpression_pointsInto ht hs
  | case4 _ _ _ _ ih | case6 _ _ _ _ _ ih => exact ih ht.tail h
  | case5 => simp at h

theorem quotedEnd_skips {quote : Char} {k pos stop : Nat} {text : List Char}
    (h : quotedEnd quote k pos text = .ok stop) : pos + k < stop := by
  fun_induction quotedEnd quote k pos text with
  | case1 | case3 => simp at h
  | case2 _ _ _ _ ih | case4 _ _ _ _ ih | case6 _ _ _ _ _ ih =>
    have hlt := ih h
    omega
  | case5 =>
    cases h
    omega

theorem quotedEnd_blanks {quote : Char} {blanks : List Char} (hquote : isBlank quote = false)
    (hblanks : allBlank blanks = true) (pos : Nat) (rest : List Char) :
    quotedEnd quote 0 pos (blanks ++ rest) = quotedEnd quote 0 (pos + blanks.length) rest := by
  induction blanks generalizing pos with
  | nil => rfl
  | cons c blanks ih =>
    obtain ⟨hc, hblanks⟩ := Bool.and_eq_true_iff.mp hblanks
    have hbrace : c ≠ '{' := by rintro rfl; exact absurd hc (by decide)
    have hne : c ≠ quote := by rintro rfl; rw [hc] at hquote; simp at hquote
    rw [List.cons_append, quotedEnd, if_neg hbrace, if_neg hne, ih hblanks, List.length_cons]
    congr 1
    omega

theorem soleExpression?_isOk {quote : Char} {value more : List Char} {pos : Nat} (hquote : isBlank quote = false)
    (h : quotedEnd quote 0 pos (value ++ quote :: more) = .ok (pos + value.length + 1)) :
    (soleExpression? value).isOk := by
  unfold soleExpression?
  split
  · rfl
  · next lead after hcut =>
    obtain rfl := cutAt_eq_some hcut
    split
    · next hlead =>
      rw [List.append_assoc, quotedEnd_blanks hquote hlead, List.cons_append, quotedEnd, if_pos rfl] at h
      split at h
      · simp at h
      · next stop hs =>
        obtain ⟨used, rest, hused, rfl, hbalanced⟩ := skipExpression_eq_ok_iff.mp hs
        have hskips := quotedEnd_skips h
        obtain ⟨tail, htail, -⟩ := eq_append_of_append_eq (c := '{' :: after) (d := quote :: more) hused.symm (by
          simp only [List.length_append, List.length_cons] at hskips ⊢
          omega)
        rw [List.drop_left, htail, hbalanced.skip]
        dsimp only
        split <;> rfl
    · rfl

theorem isBlank_of_quote {c : Char} (h : c = '"' ∨ c = '\'') : isBlank c = false := by
  obtain rfl | rfl := h <;> rfl

theorem attributeValue_pointsInto {document text : List Char} {name : String} {start pos : Nat} {e : ParseError}
    (ht : StandsFrom document pos text) (hstart : start ≤ pos)
    (h : attributeValue name start pos text = .error e) : e.PointsInto document := by
  have hvalue := ht.trimStart
  have hle : start ≤ pos + (text.takeWhile isBlank).length := Nat.le_add_right_of_le hstart
  rw [attributeValue] at h
  dsimp only at h
  generalize pos + (text.takeWhile isBlank).length = pos at h hvalue hle
  generalize Text.trimStart text = text at h hvalue
  split at h
  · cases h
    exact .inside hle hvalue.pos_le
  · next c rest =>
    split at h
    · next hquote =>
      obtain h | ⟨stop, hstop, h⟩ := bind_eq_error.mp h
      · exact quotedEnd_pointsInto hvalue.tail h
      · -- What the quotes hold is read without a fault.
        obtain ⟨value, more, rfl, rfl⟩ := quotedEnd_reads hstop
        have htake : (value ++ c :: more).take (pos + 1 + value.length + 1 - pos - 2) = value := by
          rw [show pos + 1 + value.length + 1 - pos - 2 = value.length by omega, List.take_left]
        have hsole := soleExpression?_isOk (isBlank_of_quote hquote) hstop
        rw [htake] at h
        obtain h | ⟨sole, -, h⟩ := bind_eq_error.mp h
        · simp [h, Except.isOk, Except.toBool] at hsole
        · cases sole <;> simp [pure, Except.pure] at h
    · split at h
      · next hbrace =>
        obtain h | ⟨stop, -, h⟩ := bind_eq_error.mp h
        · exact skipExpression_pointsInto hvalue h
        · simp [pure, Except.pure] at h
      · split at h
        · cases h
          exact .inside (Nat.le_succ pos) hvalue.tail.pos_le
        · simp at h

theorem readAttribute_pointsInto {document rest : List Char} {pos : Nat} {c : Char} {e : ParseError}
    (ht : StandsFrom document pos (c :: rest)) (h : readAttribute pos c rest = .error e) :
    e.PointsInto document := by
  unfold readAttribute at h
  split at h
  · obtain h | ⟨stop, -, h⟩ := bind_eq_error.mp h
    · exact skipExpression_pointsInto ht h
    · simp [pure, Except.pure] at h
  · split at h
    · cases h
      exact .inside (Nat.le_succ pos) ht.tail.pos_le
    · dsimp only at h
      have hafter : StandsFrom document (pos + ((c :: rest).takeWhile isAttributeNameChar).length)
          ((c :: rest).drop ((c :: rest).takeWhile isAttributeNameChar).length) := by
        rw [drop_length_takeWhile]
        exact StandsFrom.drop (by rwa [List.takeWhile_append_dropWhile])
      generalize (c :: rest).takeWhile isAttributeNameChar = name at h hafter
      generalize (c :: rest).drop name.length = after at h hafter
      have hvalue := hafter.trimStart
      split at h
      · next after' hequals =>
        rw [hequals] at hvalue
        obtain h | ⟨⟨content, stop⟩, -, h⟩ := bind_eq_error.mp h
        · exact attributeValue_pointsInto hvalue.tail (by omega) h
        · simp [pure, Except.pure] at h
      · simp at h

theorem tagRest_pointsInto {document text : List Char} {name : String} {start k pos : Nat} {e : ParseError}
    (ht : StandsFrom document pos text) (hstart : start ≤ pos) (h : tagRest name start k pos text = .error e) :
    e.PointsInto document := by
  fun_induction tagRest name start k pos text with
  | case1 k pos =>
    cases h
    exact .inside hstart ht.pos_le
  | case2 _ _ _ _ ih | case3 _ _ _ _ ih => exact ih ht.tail (Nat.le_succ_of_le hstart) h
  | case4 | case5 | case8 => simp at h
  | case6 pos c rest _ _ _ e ha =>
    cases h
    exact readAttribute_pointsInto ht ha
  | case7 pos c rest _ _ _ a _ e hmore ih =>
    cases h
    exact ih ht.tail (Nat.le_succ_of_le hstart) hmore

theorem startToken_pointsInto {document more name : List Char} {pos : Nat} {e : ParseError}
    (ht : StandsFrom document pos ('<' :: name ++ more)) (h : startToken pos name ('<' :: name ++ more) = .error e) :
    e.PointsInto document := by
  obtain ⟨hdrop, hmore⟩ := ht.behind_name
  rw [startToken, hdrop] at h
  split at h
  · next e he =>
    cases h
    exact tagRest_pointsInto hmore (by omega) he
  · next r hr =>
    dsimp only at h
    split at h
    · simp at h
    · split at h
      · obtain ⟨inner, rest, rfl, hstop⟩ := tagRest_reads hr
        cases h
        rw [hstop]
        exact .inside (by omega) hmore.drop.pos_le
      · simp at h

theorem nextToken_pointsInto {document rest : List Char} {pos : Nat} {c : Char} {e : ParseError}
    (ht : StandsFrom document pos (c :: rest)) (h : nextToken pos c rest = .error e) : e.PointsInto document := by
  have hend : pos + (c :: rest).length ≤ document.length := Nat.le_of_eq ht.length_eq.symm
  rw [nextToken] at h
  dsimp only at h
  split at h
  · split at h
    · cases h
      exact .inside (Nat.le_add_right _ _) hend
    · simp at h
  split at h
  · split at h
    · cases h
      exact .inside (Nat.le_add_right _ _) hend
    · simp at h
  split at h
  · next name hname =>
    split at hname
    · next hc =>
      obtain ⟨-, more, rfl, -⟩ := tagName?_eq_some_iff.mp hname
      subst hc
      exact startToken_pointsInto ht h
    · simp at hname
  split at h
  · obtain h | ⟨stop, -, h⟩ := bind_eq_error.mp h
    · exact skipExpression_pointsInto ht h
    · simp [pure, Except.pure] at h
  · simp at h

theorem tokensFrom_pointsInto {document text : List Char} {k pos : Nat} {e : ParseError}
    (ht : StandsFrom document pos text) (h : (tokensFrom k pos text).2 = some e) : e.PointsInto document := by
  fun_induction tokensFrom k pos text with
  | case1 => simp at h
  | case2 _ _ _ _ ih => exact ih ht.tail h
  | case3 pos c rest e he =>
    cases h
    exact nextToken_pointsInto ht he
  | case4 pos c rest t _ ts e hmore ih =>
    rw [hmore] at ih
    exact ih ht.tail h

def Token.PointsInto (document : List Char) : Token → Prop
  | .endTag _ span => span.start ≤ span.stop ∧ span.stop ≤ document.length
  | .startTag tag => tag.span.start ≤ tag.span.stop ∧ tag.span.stop ≤ document.length
  | _ => True

theorem Token.ReadAt.pointsInto {document text : List Char} {pos : Nat} {t : Token}
    (ht : StandsFrom document pos text) (h : t.ReadAt pos text) : t.PointsInto document := by
  obtain ⟨used, rest, rfl, -, -, hcovers⟩ := h
  have hstop := ht.drop.pos_le
  cases t with
  | text | comment | rawElement => exact trivial
  | startTag tag =>
    obtain ⟨⟨hspan, -⟩, -⟩ := hcovers
    rw [Token.PointsInto, hspan]
    exact ⟨Nat.le_add_right _ _, hstop⟩
  | endTag name span =>
    obtain ⟨rfl, -⟩ := hcovers
    exact ⟨Nat.le_add_right _ _, hstop⟩

theorem tokensFrom_tokens_pointInto {document text : List Char} {k pos : Nat} (ht : StandsFrom document pos text) :
    ∀ t ∈ (tokensFrom k pos text).1, t.PointsInto document := by
  fun_induction tokensFrom k pos text with
  | case1 | case3 => simp
  | case2 _ _ _ _ ih => exact ih ht.tail
  | case4 pos c rest t hread ts e hmore ih =>
    rw [hmore] at ih
    exact List.forall_mem_cons.mpr ⟨(nextToken_readAt hread).pointsInto ht, ih ht.tail⟩

def Builder.PointsInto (document : List Char) (b : Builder) : Prop :=
  ∀ o ∈ b.opens, o.tag.span.start ≤ o.tag.span.stop ∧ o.tag.span.stop ≤ document.length

theorem Builder.PointsInto.push {document : List Char} {b : Builder} (h : b.PointsInto document) (n : Node) :
    (b.push n).PointsInto document := by
  unfold Builder.push
  split
  · exact h
  · next o opens hopens =>
    intro o' ho'
    obtain rfl | ho' := List.mem_cons.mp ho'
    · exact h o (hopens ▸ List.mem_cons_self)
    · exact h o' (hopens ▸ List.mem_cons_of_mem o ho')

theorem close_opens {name : String} {span : Span} {inner : List Node} {opens rest : List OpenElement} {n : Node}
    (h : Builder.close name span inner opens = some (n, rest)) : rest ⊆ opens := by
  fun_induction Builder.close name span inner opens with
  | case1 => simp at h
  | case2 =>
    cases h
    exact List.subset_cons_self _ _
  | case3 _ _ _ _ _ ih => exact List.subset_cons_of_subset _ (ih h)

theorem Builder.PointsInto.add {document : List Char} {b b' : Builder} {t : Token} (h : b.PointsInto document)
    (ht : t.PointsInto document) (hadd : b.add t = .ok b') : b'.PointsInto document := by
  cases t with
  | text | comment | rawElement =>
    cases hadd
    exact h.push _
  | startTag tag =>
    rw [Builder.add] at hadd
    split at hadd <;> cases hadd
    · exact h.push _
    · exact List.forall_mem_cons.mpr ⟨ht, h⟩
  | endTag name span =>
    rw [Builder.add] at hadd
    split at hadd
    · next n rest hclose =>
      cases hadd
      have hrest : Builder.PointsInto document { b with opens := rest } := fun o ho => h o (close_opens hclose ho)
      exact hrest.push n
    · simp at hadd

theorem Builder.add_pointsInto {document : List Char} {b : Builder} {t : Token} {e : ParseError}
    (ht : t.PointsInto document) (h : b.add t = .error e) : e.PointsInto document := by
  cases t with
  | text | comment | rawElement => simp [Builder.add] at h
  | startTag tag =>
    rw [Builder.add] at h
    split at h <;> simp at h
  | endTag name span =>
    rw [Builder.add] at h
    split at h
    · simp at h
    · cases h
      exact .inside ht.1 ht.2

theorem ofTokens_pointsInto {document : List Char} {b : Builder} {ts : List Token}
    (hb : b.PointsInto document) (hts : ∀ t ∈ ts, t.PointsInto document) :
    (∀ e, ofTokens b ts = .error e → e.PointsInto document) ∧
      ∀ b', ofTokens b ts = .ok b' → b'.PointsInto document := by
  induction ts generalizing b with
  | nil =>
    constructor
    · intro e h
      cases h
    · intro b' h
      exact Except.ok.inj h ▸ hb
  | cons t ts ih =>
    obtain ⟨ht, hts⟩ := List.forall_mem_cons.mp hts
    rw [ofTokens]
    split
    · next e he =>
      constructor
      · intro e' h
        exact Except.error.inj h ▸ Builder.add_pointsInto ht he
      · intro b' h
        cases h
    · next b₁ hadd => exact ih (hb.add ht hadd) hts

theorem parse_error_pointsInto {text : List Char} {e : ParseError} (h : parse text = .error e) :
    e.PointsInto text := by
  rw [parse] at h
  split at h
  next ts fault htokens =>
  have hts := tokensFrom_tokens_pointInto (k := 0) (standsFrom_zero text)
  have hfault := fun e => tokensFrom_pointsInto (k := 0) (e := e) (standsFrom_zero text)
  rw [tokens] at htokens
  rw [htokens] at hts hfault
  obtain ⟨herror, hok⟩ := ofTokens_pointsInto (b := .empty) (by simp [Builder.PointsInto, Builder.empty]) hts
  split at h
  · next e' he =>
    cases h
    exact herror e he
  · next b hb =>
    split at h
    · cases h
      exact hfault e rfl
    · rw [Builder.finish] at h
      split at h
      · simp at h
      · next o opens hopens =>
        cases h
        obtain ⟨hordered, hinside⟩ := hok b hb o (hopens ▸ List.mem_cons_self)
        exact .inside hordered hinside

end Markup

end ComponentDoc
