import ComponentDoc.Document.Regions
import ComponentDoc.Proofs.Markup.Attribute
import ComponentDoc.Proofs.Markup.Token

/-!
Tags that the splitter and the markup parser read alike. Main statement: they read a tag alike unless a
value holds its own quote, an unquoted value holds a brace or ends in a slash right before the end of
the tag, or a blank stands before the name of an end tag.
-/

namespace ComponentDoc.Document

open Text Markup

def AlikeAt (text : List Char) : Token → Prop
  | .text .. | .comment .. => True
  | .startTag tag | .rawElement tag _ _ =>
    tagEnd tag.name tag.span.start 0 (tag.span.start + 1 + tag.name.toList.length)
      (text.drop (1 + tag.name.toList.length)) = .ok (tag.span.stop, tag.selfClosing)
  | .endTag name _ => name.toList <+: text.drop 2

def tokenStart : Token → Nat
  | .text _ span | .comment _ span | .endTag _ span => span.start
  | .startTag tag | .rawElement tag _ _ => tag.span.start

def ReadAlike (markup : List Char) (t : Token) : Prop := AlikeAt (markup.drop (tokenStart t)) t

instance (text : List Char) (t : Token) : Decidable (AlikeAt text t) :=
  match t with
  | .text .. | .comment .. => inferInstanceAs (Decidable True)
  | .startTag _ | .rawElement _ _ _ => inferInstanceAs (Decidable (_ = _))
  | .endTag _ _ => inferInstanceAs (Decidable (_ <+: _))

instance (markup : List Char) (t : Token) : Decidable (ReadAlike markup t) :=
  inferInstanceAs (Decidable (AlikeAt _ _))

theorem tokenStart_eq {pos : Nat} {used : List Char} {t : Token} (h : t.Covers pos used) :
    tokenStart t = pos := by
  cases t with
  | text | comment | endTag => exact congrArg Span.start h.1
  | startTag tag => exact congrArg Span.start h.1.1
  | rawElement tag content stop =>
    obtain ⟨-, -, -, opening, -, -, htag, -⟩ := h
    exact congrArg Span.start htag.1

theorem tagEnd_append (name : String) (start pos : Nat) (used rest : List Char) :
    tagEnd name start used.length pos (used ++ rest) =
      tagEnd name start 0 (pos + used.length) rest := by
  induction used generalizing pos with
  | nil => rfl
  | cons c cs ih =>
    rw [List.length_cons, List.cons_append, tagEnd, ih]
    congr 1
    omega

/-- In a start tag the splitter steps over `used` when `more` follows. -/
def Passes (used more : List Char) : Prop :=
  ∀ name start pos, tagEnd name start 0 pos (used ++ more) =
    tagEnd name start 0 (pos + used.length) more

theorem Passes.append {front back more : List Char} (hf : Passes front (back ++ more))
    (hb : Passes back more) : Passes (front ++ back) more := by
  intro name start pos
  rw [List.append_assoc, hf, hb, List.length_append, Nat.add_assoc]

theorem passes_chars {used more : List Char} (h : ∀ c ∈ used, c ∉ ['{', '"', '\'', '>'])
    (hslash : used.getLast? = some '/' → more.head? ≠ some '>') : Passes used more := by
  induction used with
  | nil => exact fun _ _ _ => rfl
  | cons c cs ih =>
    intro name start pos
    obtain ⟨hb, hd, hs, hg⟩ : c ≠ '{' ∧ c ≠ '"' ∧ c ≠ '\'' ∧ c ≠ '>' := by
      simpa using h c List.mem_cons_self
    have hnext : ¬ (c = '/' ∧ (cs ++ more).head? = some '>') := by
      rintro ⟨rfl, hhead⟩
      cases cs with
      | nil => exact hslash rfl hhead
      | cons d ds =>
        have hne := h d (List.mem_cons_of_mem _ List.mem_cons_self)
        obtain rfl : d = '>' := by simpa using hhead
        exact hne (by simp)
    have hlast : cs.getLast? = some '/' → more.head? ≠ some '>' := by
      intro hl
      apply hslash
      rw [List.getLast?_cons, hl]
      rfl
    rw [List.cons_append, tagEnd, if_neg hb, if_neg (not_or.mpr ⟨hd, hs⟩), if_neg hnext, if_neg hg,
      ih (fun d hd => h d (List.mem_cons_of_mem _ hd)) hlast, List.length_cons, Nat.add_assoc,
      Nat.add_comm 1]

theorem passes_braces {code : List Char} (h : Balanced (braces code)) (more : List Char) :
    Passes (braces code) more := by
  intro name start pos
  have hskip : skipExpression pos ('{' :: (code ++ ['}'] ++ more)) = .ok (pos + (braces code).length) :=
    h.skip pos more
  have hlen : pos + (braces code).length - pos - 1 = (code ++ ['}']).length := by simp
  rw [braces, List.cons_append, List.cons_append, tagEnd, if_pos rfl, hskip]
  dsimp only
  rw [hlen, tagEnd_append]
  simp only [List.length_append, List.length_cons, List.length_nil]
  congr 1
  omega

theorem passes_quoted {quote : Char} {value : List Char} (hq : quote = '"' ∨ quote = '\'')
    (hv : quote ∉ value) (more : List Char) : Passes (quote :: value ++ [quote]) more := by
  intro name start pos
  have hb : quote ≠ '{' := by rcases hq with rfl | rfl <;> decide
  have hsplit : quote :: value ++ [quote] ++ more = quote :: (value ++ quote :: more) := by simp
  have hsplit' : value ++ quote :: more = value ++ [quote] ++ more := by simp
  have hlen : value.length + 1 = (value ++ [quote]).length := by simp
  rw [hsplit, tagEnd, if_neg hb, if_pos hq, indexOf?_append_singleton hv]
  dsimp only
  rw [hlen, hsplit', tagEnd_append]
  simp only [List.length_append, List.length_cons, List.length_nil]
  congr 1
  omega

/-- The mark before a value that starts at `start`, which is quoted if it is a quotation mark. -/
def quoteBefore? (markup : List Char) (start : Nat) : Option Char :=
  markup[start - 1]?.filter fun c => c = '"' ∨ c = '\''

def AttributeUnambiguous (markup : List Char) (a : Attribute) : Prop :=
  match a.content with
  | .text value start =>
    match quoteBefore? markup start with
    | some quote => quote ∉ value.toList
    | none => '{' ∉ value.toList ∧
      (value.toList.getLast? = some '/' → markup[a.span.stop]? ≠ some '>')
  | .quotedExpression code _ quoted => ∀ quote ∈ quoteBefore? markup quoted, quote ∉ code.toList
  | _ => True

/-- The attributes are unambiguous; the name of an end tag comes right after the slash. -/
def TokenUnambiguous (markup : List Char) : Token → Prop
  | .text .. | .comment .. => True
  | .startTag tag | .rawElement tag _ _ => ∀ a ∈ tag.attributes, AttributeUnambiguous markup a
  | .endTag _ span => ∀ c ∈ markup[span.start + 2]?, isBlank c = false

theorem passes_of_class {p : Char → Bool} {used : List Char} (h : ∀ c ∈ used, p c = true)
    (hb : p '{' = false) (hd : p '"' = false) (hs : p '\'' = false) (hg : p '>' = false)
    (hslash : p '/' = false) (more : List Char) : Passes used more := by
  refine passes_chars (fun c hc hm => ?_) fun hlast => ?_
  · simp only [List.mem_cons, List.not_mem_nil, or_false] at hm
    rcases hm with rfl | rfl | rfl | rfl
    · exact not_mem_of_forall h hb hc
    · exact not_mem_of_forall h hd hc
    · exact not_mem_of_forall h hs hc
    · exact not_mem_of_forall h hg hc
  · exact absurd (List.mem_of_getLast? hlast) (not_mem_of_forall h hslash)

theorem passes_blanks {blanks : List Char} (h : allBlank blanks = true) (more : List Char) :
    Passes blanks more :=
  passes_of_class (List.all_eq_true.mp h) (by decide) (by decide) (by decide) (by decide)
    (by decide) more

theorem passes_name {name : List Char} (h : IsAttributeName name) (more : List Char) :
    Passes name more :=
  passes_of_class h.2 (by decide) (by decide) (by decide) (by decide) (by decide) more

theorem passes_equals {equals : List Char} (h : IsEquals equals) (more : List Char) :
    Passes equals more := by
  obtain ⟨front, back, hf, hb, rfl⟩ := h
  have hsign : Passes ['='] (back ++ more) := passes_chars (by simp) (by simp)
  exact (passes_blanks hf _).append (hsign.append (passes_blanks hb more))

theorem getElem?_append_at {before rest : List Char} {c : Char} {i : Nat} (h : i = before.length) :
    (before ++ c :: rest)[i]? = some c := by
  subst h
  simp

theorem quoteBefore?_quote {before rest : List Char} {quote : Char} {start : Nat}
    (hq : quote = '"' ∨ quote = '\'') (h : start = before.length + 1) :
    quoteBefore? (before ++ quote :: rest) start = some quote := by
  subst h
  rw [quoteBefore?, Nat.add_sub_cancel, getElem?_append_at rfl]
  simpa using hq

theorem quoteBefore?_equals {before equals rest : List Char} {start : Nat} (h : IsEquals equals)
    (hs : start = (before ++ equals).length) :
    quoteBefore? (before ++ equals ++ rest) start = none := by
  obtain ⟨front, back, -, hb, rfl⟩ := h
  obtain ⟨c, last, hlast, hc⟩ : ∃ c last, '=' :: back = last ++ [c] ∧ (c = '=' ∨ isBlank c = true) := by
    cases hr : back.getLast? with
    | none =>
      obtain rfl := List.getLast?_eq_none_iff.mp hr
      exact ⟨'=', [], rfl, Or.inl rfl⟩
    | some c =>
      obtain ⟨last, rfl⟩ := List.getLast?_eq_some_iff.mp hr
      exact ⟨c, '=' :: last, rfl, Or.inr (List.all_eq_true.mp hb c (by simp))⟩
  have hsplit : before ++ (front ++ '=' :: back) ++ rest = (before ++ front ++ last) ++ c :: rest := by
    rw [hlast]
    simp
  have hstart : start - 1 = (before ++ front ++ last).length := by
    rw [hs, hlast]
    simp only [List.length_append, List.length_singleton]
    omega
  have hne : ¬ (c = '"' ∨ c = '\'') := by
    rintro (rfl | rfl)
    · exact absurd hc (by decide)
    · exact absurd hc (by decide)
  rw [quoteBefore?, hstart, hsplit, getElem?_append_at rfl]
  simpa using hne

theorem passes_of_valued {markup equals value more : List Char} {pos stop start : Nat} {name : String}
    {content : AttributeContent} (before : List Char) (h : Valued pos more value content)
    (he : IsEquals equals) (hm : markup = before ++ equals ++ (value ++ more))
    (hp : pos = (before ++ equals).length) (hstop : stop = pos + value.length)
    (hu : AttributeUnambiguous markup ⟨name, ⟨start, stop⟩, content⟩) : Passes value more := by
  have hquoted {quote : Char} {rest : List Char} (hq : quote = '"' ∨ quote = '\'')
      (hv : value = quote :: rest) : quoteBefore? markup (pos + 1) = some quote := by
    rw [hm, hp, hv]
    exact quoteBefore?_quote hq rfl
  cases h with
  | @quoted quote value isQuote =>
    simp only [AttributeUnambiguous, hquoted isQuote rfl, String.toList_ofList] at hu
    exact passes_quoted isQuote hu more
  | @quotedExpression quote front code back isQuote front_blank balanced back_blank =>
    simp only [AttributeUnambiguous, hquoted isQuote rfl, Option.mem_some_iff, forall_eq',
      String.toList_ofList] at hu
    have hblank : isBlank quote = false := by rcases isQuote with rfl | rfl <;> decide
    have hnot (s : List Char) (hs : allBlank s = true) : quote ∉ s :=
      not_mem_of_forall (List.all_eq_true.mp hs) hblank
    refine passes_quoted isQuote ?_ more
    simp only [braces, List.mem_append, List.mem_cons, List.not_mem_nil, or_false, not_or]
    have hne : quote ≠ '{' ∧ quote ≠ '}' := by rcases isQuote with rfl | rfl <;> decide
    exact ⟨⟨hnot _ front_blank, ⟨hne.1, hu⟩, hne.2⟩, hnot _ back_blank⟩
  | braced balanced => exact passes_braces balanced more
  | @unquoted c tail first chars after =>
    have hq : quoteBefore? markup pos = none := by
      rw [hm]
      exact quoteBefore?_equals he hp
    simp only [AttributeUnambiguous, hq, String.toList_ofList] at hu
    obtain ⟨hbrace, hslash⟩ := hu
    refine passes_chars (fun d hd hmem => ?_) fun hlast => ?_
    · have hd' := chars d hd
      simp only [List.mem_cons, List.not_mem_nil, or_false] at hmem
      rcases hmem with rfl | rfl | rfl | rfl
      · exact hbrace hd
      all_goals exact absurd hd' (by decide)
    · have hnext : markup[stop]? = more.head? := by
        rw [hm, hstop, hp, ← List.append_assoc, ← List.length_append, List.head?_eq_getElem?,
          List.getElem?_append_right le_rfl, Nat.sub_self]
      exact hnext ▸ hslash hlast

theorem passes_of_shaped {markup before used more : List Char} {pos : Nat} {a : Attribute}
    (h : Shaped pos more used a) (hm : markup = before ++ (used ++ more)) (hp : pos = before.length)
    (hu : AttributeUnambiguous markup a) : Passes used more := by
  cases h with
  | bare isName => exact passes_name isName more
  | @assigned name equals value content isName isEquals valued =>
    have hvalue : Passes value more := by
      refine passes_of_valued (before ++ name) valued isEquals ?_ ?_ ?_ hu
      · rw [hm]
        simp
      · rw [hp, List.length_append, List.length_append]
      · simp only [List.length_append]
        omega
    rw [List.append_assoc]
    exact (passes_name isName _).append ((passes_equals isEquals _).append hvalue)
  | alone balanced => exact passes_braces balanced more

theorem tagEnd_of_tagRead {name : String} {start pos : Nat} {markup text : List Char} {r : TagRest}
    (before : List Char) (h : TagRead pos text r) (hm : markup = before ++ text)
    (hp : pos = before.length) (hu : ∀ a ∈ r.attributes, AttributeUnambiguous markup a) :
    tagEnd name start 0 pos text = .ok (r.stop, r.selfClosing) := by
  induction h generalizing before with
  | @blank pos c rest r isBlank tail ih =>
    have hpass : Passes [c] rest := passes_blanks (by simpa [allBlank] using isBlank) rest
    have hstep := hpass name start pos
    rw [List.singleton_append] at hstep
    rw [hstep]
    refine ih (before ++ [c]) ?_ ?_ hu
    · simpa using hm
    · rw [hp, List.length_append, List.length_singleton]
  | slash => simp [tagEnd]
  | sign => simp [tagEnd]
  | @whole pos used more a r shaped tail ih =>
    rw [passes_of_shaped shaped hm hp (hu a List.mem_cons_self) name start pos]
    refine ih (before ++ used) ?_ ?_ fun b hb => hu b (List.mem_cons_of_mem _ hb)
    · rw [hm, List.append_assoc]
    · rw [hp, List.length_append]

theorem alikeAt_startToken {markup before name more : List Char} {t : Token} {pos : Nat}
    (h : startToken pos name ('<' :: name ++ more) = .ok t)
    (hm : markup = before ++ ('<' :: name ++ more)) (hp : pos = before.length)
    (hu : TokenUnambiguous markup t) : AlikeAt ('<' :: name ++ more) t := by
  have hdrop : ('<' :: name ++ more).drop (1 + name.length) = more := by
    rw [Nat.add_comm]
    simp
  have hafter : markup = before ++ '<' :: name ++ more := by simp [hm]
  have hnext : pos + 1 + name.length = (before ++ '<' :: name).length := by
    rw [hp, List.length_append, List.length_cons]
    omega
  cases startToken_started h with
  | @tag r rest plain =>
    rw [AlikeAt, String.toList_ofList, hdrop]
    exact tagEnd_of_tagRead _ (tagRead_of_tagRest rest) hafter hnext hu
  | @raw r before' length rest paired raw found =>
    rw [AlikeAt, String.toList_ofList, hdrop]
    exact tagEnd_of_tagRead _ (tagRead_of_tagRest rest) hafter hnext hu

theorem prefix_of_trim {inner : List Char} (h : ∀ c ∈ inner.head?, isBlank c = false) :
    trim inner <+: inner := by
  have hstart : trimStart inner = inner := @trimStart_append [] inner rfl h
  obtain ⟨blanks, -, he⟩ := exists_trimEnd_append inner
  rw [trim, hstart]
  exact ⟨blanks, he.symm⟩

theorem alikeAt_of_unambiguous {markup before rest : List Char} {c : Char} {t : Token} {pos : Nat}
    (h : nextToken pos c rest = .ok t) (hm : markup = before ++ c :: rest) (hp : pos = before.length)
    (hu : TokenUnambiguous markup t) : AlikeAt (c :: rest) t := by
  have hscan := nextToken_scanned h
  generalize c :: rest = text at hm hscan
  cases hscan with
  | comment | mustache | plain => trivial
  | endTag stop =>
    obtain ⟨inner, more, rfl, rfl, -, hslice⟩ := closing_of_indexOf? stop
    have hfirst : ∀ d ∈ inner.head?, isBlank d = false := by
      intro d hd
      obtain ⟨tail, rfl⟩ := List.head?_eq_some_iff.mp hd
      refine hu d ?_
      have hsplit : markup = before ++ ['<', '/'] ++ d :: (tail ++ '>' :: more) := by simp [hm]
      rw [hsplit]
      exact getElem?_append_at (by simp [hp])
    rw [AlikeAt, String.toList_ofList, hslice]
    exact (prefix_of_trim hfirst).trans (List.prefix_append _ _)
  | opening isName whole read => exact alikeAt_startToken read hm hp hu

theorem readAlike_of_tokenRun {markup text : List Char} {ts : List Token} {pos : Nat}
    (before : List Char) (h : TokenRun pos text ts) (hm : markup = before ++ text)
    (hp : pos = before.length) (hu : ∀ t ∈ ts, TokenUnambiguous markup t) : ∀ t ∈ ts, ReadAlike markup t := by
  induction h generalizing before with
  | done => simp
  | @token pos c rest used more t ts read split stop nonempty covers tail ih =>
    intro t' ht'
    rcases List.mem_cons.mp ht' with rfl | ht'
    · rw [ReadAlike, tokenStart_eq covers, hp, hm, List.drop_left]
      exact alikeAt_of_unambiguous read hm hp (hu _ List.mem_cons_self)
    · refine ih (before ++ used) ?_ ?_ (fun t ht => hu t (List.mem_cons_of_mem _ ht)) t' ht'
      · rw [hm, split, List.append_assoc]
      · rw [hp, List.length_append]

theorem readAlike_of_unambiguous {markup : List Char} {ts : List Token}
    (h : tokens markup = (ts, none)) (hu : ∀ t ∈ ts, TokenUnambiguous markup t) :
    ∀ t ∈ ts, ReadAlike markup t :=
  readAlike_of_tokenRun [] (tokenRun_of_tokensFrom h) rfl rfl hu

end ComponentDoc.Document
