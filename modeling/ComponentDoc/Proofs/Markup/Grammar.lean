import ComponentDoc.Proofs.Markup.Expression
import ComponentDoc.Text.Search
import Mathlib.Computability.Language

/-!
The grammar of expressions in braces. Main statement: the scan of an expression accepts what the grammar
accepts and ends where that ends, and it fails where no part of the text is an expression.
-/

namespace ComponentDoc.Markup

/-- A string after its opening quote. -/
inductive IsStringRest (quote : Char) : List Char → Prop
  | close : IsStringRest quote [quote]
  | escape (c : Char) {w : List Char} (rest : IsStringRest quote w) : IsStringRest quote ('\\' :: c :: w)
  | plain {c : Char} {w : List Char} (hc : c ∉ [quote, '\\', '\n']) (rest : IsStringRest quote w) :
    IsStringRest quote (c :: w)

def StartsComment (c : Char) (w : List Char) : Prop := c = '/' ∧ (w.head? = some '/' ∨ w.head? = some '*')

mutual

inductive IsExpression : List Char → Prop
  | braces {w : List Char} (items : IsItems w) : IsExpression ('{' :: w ++ ['}'])

/-- What can stand between braces. A comment to the end of a line leaves the line feed, and a comment between
marks ends with the first closing mark. -/
inductive IsItems : List Char → Prop
  | nil : IsItems []
  | expression {e w : List Char} (head : IsExpression e) (rest : IsItems w) : IsItems (e ++ w)
  | string {quote : Char} {s w : List Char} (hquote : quote ∈ ['"', '\'']) (head : IsStringRest quote s)
    (rest : IsItems w) : IsItems (quote :: s ++ w)
  | template {t w : List Char} (head : IsTemplateRest t) (rest : IsItems w) : IsItems ('`' :: t ++ w)
  | lineComment {b w : List Char} (hb : '\n' ∉ b) (rest : IsItems ('\n' :: w)) :
    IsItems ('/' :: '/' :: b ++ '\n' :: w)
  | blockComment {b w : List Char} (hb : ¬['*', '/'] <:+: b) (rest : IsItems w) :
    IsItems ('/' :: '*' :: b ++ '*' :: '/' :: w)
  | other {c : Char} {w : List Char} (hc : c ∉ ['{', '}', '\'', '"', '`']) (hcomment : ¬StartsComment c w)
    (rest : IsItems w) : IsItems (c :: w)

inductive IsTemplateRest : List Char → Prop
  | close : IsTemplateRest ['`']
  | escape (c : Char) {w : List Char} (rest : IsTemplateRest w) : IsTemplateRest ('\\' :: c :: w)
  | substitution {e w : List Char} (head : IsExpression e) (rest : IsTemplateRest w) :
    IsTemplateRest ('$' :: e ++ w)
  | plain {c : Char} {w : List Char} (hc : c ∉ ['`', '\\']) (hopen : ¬(c = '$' ∧ w.head? = some '{'))
    (rest : IsTemplateRest w) : IsTemplateRest (c :: w)

end

section Languages

def items : Language Char := {w | IsItems w}

/-- What follows an open brace up to the brace that closes it. -/
def upToBrace : Language Char := items * {['}']}

def stringRest (quote : Char) : Language Char := {w | IsStringRest quote w}

def templateRest : Language Char := {w | IsTemplateRest w}

/-- What follows the mark of a comment up to the end of the line. -/
def lineCommentRest : Language Char := {w | ∃ b, '\n' ∉ b ∧ w = b ++ ['\n']}

def blockCommentRest : Language Char := {w | ∃ b, ¬['*', '/'] <:+: b ∧ w = b ++ ['*', '/']}

variable {L K M : Language Char} {c d : Char} {u w : List Char}

theorem mem_items : w ∈ items ↔ IsItems w := Iff.rfl

theorem mem_mul_singleton {p : List Char} : w ∈ L * {p} ↔ ∃ v, w = v ++ p ∧ v ∈ L := by
  rw [Language.mem_mul]
  constructor
  · rintro ⟨v, hv, q, rfl, rfl⟩
    exact ⟨v, rfl, hv⟩
  · rintro ⟨v, rfl, hv⟩
    exact ⟨v, hv, p, rfl, rfl⟩

theorem mem_singleton_mul {p : List Char} : w ∈ {p} * L ↔ ∃ v, w = p ++ v ∧ v ∈ L := by
  rw [Language.mem_mul]
  constructor
  · rintro ⟨q, rfl, v, hv, rfl⟩
    exact ⟨v, rfl, hv⟩
  · rintro ⟨v, rfl, hv⟩
    exact ⟨p, rfl, v, hv, rfl⟩

def Outlasts (L : Language Char) (p : List Char) : Prop := ∀ q ∈ L, q <+: p → q = p

theorem outlasts_singleton (h : [] ∉ L) : Outlasts L [c] := by
  intro q hq hprefix
  rcases List.prefix_cons_iff.mp hprefix with rfl | ⟨t, rfl, ht⟩
  · exact absurd hq h
  · rw [List.prefix_nil.mp ht]

theorem outlasts_pair (h : [] ∉ L) (hc : [c] ∉ L) : Outlasts L [c, d] := by
  intro q hq hprefix
  rcases List.prefix_cons_iff.mp hprefix with rfl | ⟨t, rfl, ht⟩
  · exact absurd hq h
  rcases List.prefix_cons_iff.mp ht with rfl | ⟨t, rfl, ht'⟩
  · exact absurd hq hc
  · rw [List.prefix_nil.mp ht']

section Outlasts

variable {p : List Char} (h : Outlasts L p)

include h

theorem Outlasts.prefix_of_mem (hw : w ∈ L) {rest more : List Char} (he : p ++ rest = w ++ more) : p <+: w := by
  rcases List.prefix_or_prefix_of_prefix (List.prefix_append p rest) ⟨more, he.symm⟩ with hprefix | hprefix
  · exact hprefix
  · rw [h w hw hprefix]

theorem Outlasts.mul : Outlasts (L * M) p := by
  intro q hq hprefix
  obtain ⟨u, hu, v, -, rfl⟩ := Language.mem_mul.mp hq
  have hu' := h u hu ((List.prefix_append u v).trans hprefix)
  obtain ⟨rest, hrest⟩ := hprefix
  obtain ⟨rfl, -⟩ : v = [] ∧ rest = [] := by simpa [hu'] using hrest
  rw [hu', List.append_nil]

theorem Outlasts.append_mem_mul_iff (hstep : ∀ v, v <+: w → (p ++ v ∈ L ↔ v ∈ K)) :
    p ++ w ∈ L * M ↔ w ∈ K * M := by
  simp only [Language.mem_mul]
  constructor
  · rintro ⟨u, hu, v, hv, he⟩
    obtain ⟨u, rfl⟩ := h.prefix_of_mem hu he.symm
    rw [List.append_assoc] at he
    obtain rfl := List.append_cancel_left he
    exact ⟨u, (hstep u (List.prefix_append u v)).mp hu, v, hv, rfl⟩
  · rintro ⟨u, hu, v, hv, rfl⟩
    exact ⟨p ++ u, (hstep u (List.prefix_append u v)).mpr hu, v, hv, List.append_assoc p u v⟩

end Outlasts

theorem isExpression_iff : IsExpression ('{' :: w) ↔ w ∈ upToBrace := by
  rw [upToBrace, mem_mul_singleton]
  constructor
  · intro h
    generalize he : '{' :: w = e at h
    cases h with
    | braces items =>
      obtain ⟨-, rfl⟩ := List.cons.inj he
      exact ⟨_, rfl, items⟩
  · rintro ⟨v, rfl, hv⟩
    exact .braces hv

theorem IsExpression.exists_eq (h : IsExpression w) : ∃ v ∈ upToBrace, w = '{' :: v := by
  cases h with
  | braces items => exact ⟨_, mem_mul_singleton.mpr ⟨_, rfl, items⟩, rfl⟩

theorem isItems_lineFeed_iff : IsItems ('\n' :: w) ↔ IsItems w := by
  constructor
  · intro h
    generalize he : '\n' :: w = x at h
    cases h with
    | nil => cases he
    | expression head rest =>
      obtain ⟨v, -, rfl⟩ := head.exists_eq
      cases he
    | string hquote head rest =>
      obtain ⟨rfl, -⟩ := List.cons.inj he
      simp at hquote
    | template | lineComment | blockComment => cases he
    | other hc hcomment rest =>
      obtain ⟨-, rfl⟩ := List.cons.inj he
      exact rest
  · exact fun h => .other (by decide) (fun hcomment => absurd hcomment.1 (by decide)) h

theorem isItems_cons_iff : IsItems (c :: w) ↔
    (c = '{' ∧ w ∈ upToBrace * items) ∨ (c ∈ ['"', '\''] ∧ w ∈ stringRest c * items) ∨
      (c = '`' ∧ w ∈ templateRest * items) ∨ (c = '/' ∧ w ∈ {['/']} * (lineCommentRest * items)) ∨
      (c = '/' ∧ w ∈ {['*']} * (blockCommentRest * items)) ∨
      (c ∉ ['{', '}', '\'', '"', '`'] ∧ ¬StartsComment c w ∧ IsItems w) := by
  constructor
  · intro h
    generalize he : c :: w = x at h
    cases h with
    | nil => cases he
    | expression head rest =>
      obtain ⟨v, hv, rfl⟩ := head.exists_eq
      obtain ⟨rfl, rfl⟩ := List.cons.inj he
      exact .inl ⟨rfl, Language.append_mem_mul hv rest⟩
    | string hquote head rest =>
      obtain ⟨rfl, rfl⟩ := List.cons.inj he
      exact .inr (.inl ⟨hquote, Language.append_mem_mul head rest⟩)
    | template head rest =>
      obtain ⟨rfl, rfl⟩ := List.cons.inj he
      exact .inr (.inr (.inl ⟨rfl, Language.append_mem_mul head rest⟩))
    | @lineComment b v hb rest =>
      obtain ⟨rfl, rfl⟩ := List.cons.inj he
      have hline : b ++ ['\n'] ∈ lineCommentRest := ⟨b, hb, rfl⟩
      have hmem := Language.append_mem_mul hline (isItems_lineFeed_iff.mp rest)
      rw [List.append_assoc, List.singleton_append] at hmem
      exact .inr (.inr (.inr (.inl ⟨rfl, mem_singleton_mul.mpr ⟨_, rfl, hmem⟩⟩)))
    | @blockComment b v hb rest =>
      obtain ⟨rfl, rfl⟩ := List.cons.inj he
      have hblock : b ++ ['*', '/'] ∈ blockCommentRest := ⟨b, hb, rfl⟩
      have hmem := Language.append_mem_mul hblock rest
      rw [List.append_assoc] at hmem
      exact .inr (.inr (.inr (.inr (.inl ⟨rfl, mem_singleton_mul.mpr ⟨_, rfl, hmem⟩⟩))))
    | other hc hcomment rest =>
      obtain ⟨rfl, rfl⟩ := List.cons.inj he
      exact .inr (.inr (.inr (.inr (.inr ⟨hc, hcomment, rest⟩))))
  · rintro (⟨rfl, h⟩ | ⟨hquote, h⟩ | ⟨rfl, h⟩ | ⟨rfl, h⟩ | ⟨rfl, h⟩ | ⟨hc, hcomment, h⟩)
    · obtain ⟨u, hu, v, hv, rfl⟩ := Language.mem_mul.mp h
      exact .expression (isExpression_iff.mpr hu) hv
    · obtain ⟨u, hu, v, hv, rfl⟩ := Language.mem_mul.mp h
      exact .string hquote hu hv
    · obtain ⟨u, hu, v, hv, rfl⟩ := Language.mem_mul.mp h
      exact .template hu hv
    · obtain ⟨u, rfl, hrest⟩ := mem_singleton_mul.mp h
      obtain ⟨-, ⟨b, hb, rfl⟩, v, hv, rfl⟩ := Language.mem_mul.mp hrest
      rw [List.append_assoc, List.singleton_append]
      exact .lineComment hb (isItems_lineFeed_iff.mpr hv)
    · obtain ⟨u, rfl, hrest⟩ := mem_singleton_mul.mp h
      obtain ⟨-, ⟨b, hb, rfl⟩, v, hv, rfl⟩ := Language.mem_mul.mp hrest
      rw [List.append_assoc]
      exact .blockComment hb hv
    · exact .other hc hcomment h

theorem StartsComment.of_append {p : List Char} (h : StartsComment c w) : StartsComment c (w ++ p) := by
  cases w with
  | nil => simp [StartsComment] at h
  | cons d w => exact h

theorem cons_mem_upToBrace (hc : c ≠ '}') (h : ∀ i, w = i ++ ['}'] → (IsItems (c :: i) ↔ i ∈ K)) :
    c :: w ∈ upToBrace ↔ w ∈ K * {['}']} := by
  simp only [upToBrace, mem_mul_singleton]
  constructor
  · rintro ⟨i, he, hi⟩
    cases i with
    | nil => exact absurd (List.cons.inj he).1 hc
    | cons e i =>
      obtain ⟨rfl, rfl⟩ := List.cons.inj he
      exact ⟨i, rfl, (h i rfl).mp hi⟩
  · rintro ⟨i, rfl, hi⟩
    exact ⟨c :: i, rfl, (h i rfl).mpr hi⟩

theorem openBrace_mem_upToBrace : '{' :: w ∈ upToBrace ↔ w ∈ upToBrace * upToBrace := by
  have hitems (i : List Char) : IsItems ('{' :: i) ↔ i ∈ upToBrace * items := by
    rw [isItems_cons_iff]
    simp
  rw [cons_mem_upToBrace (by decide) fun i _ => hitems i, mul_assoc]
  rfl

theorem closeBrace_mem_upToBrace : '}' :: w ∈ upToBrace ↔ w = [] := by
  rw [upToBrace, mem_mul_singleton]
  constructor
  · rintro ⟨i, he, hi⟩
    cases i with
    | nil => exact (List.cons.inj he).2
    | cons e i =>
      obtain ⟨rfl, -⟩ := List.cons.inj he
      rw [mem_items, isItems_cons_iff] at hi
      simp at hi
  · rintro rfl
    exact ⟨[], rfl, .nil⟩

theorem quote_mem_upToBrace (hc : c = '"' ∨ c = '\'') :
    c :: w ∈ upToBrace ↔ w ∈ stringRest c * upToBrace := by
  have hitems (i : List Char) : IsItems (c :: i) ↔ i ∈ stringRest c * items := by
    rw [isItems_cons_iff]
    rcases hc with rfl | rfl <;> simp
  rw [cons_mem_upToBrace (by rcases hc with rfl | rfl <;> decide) fun i _ => hitems i, mul_assoc]
  rfl

theorem backtick_mem_upToBrace : '`' :: w ∈ upToBrace ↔ w ∈ templateRest * upToBrace := by
  have hitems (i : List Char) : IsItems ('`' :: i) ↔ i ∈ templateRest * items := by
    rw [isItems_cons_iff]
    simp
  rw [cons_mem_upToBrace (by decide) fun i _ => hitems i, mul_assoc]
  rfl

theorem slash_mem_upToBrace (hd : d ≠ '}') (h : ∀ i, IsItems ('/' :: d :: i) ↔ i ∈ K * items) :
    '/' :: d :: w ∈ upToBrace ↔ w ∈ K * upToBrace := by
  have hitems (i : List Char) (hi : d :: w = i ++ ['}']) : IsItems ('/' :: i) ↔ i ∈ {[d]} * (K * items) := by
    cases i with
    | nil => exact absurd (List.cons.inj hi).1 hd
    | cons e i =>
      obtain ⟨rfl, rfl⟩ := List.cons.inj hi
      rw [h, mem_singleton_mul]
      simp
  rw [cons_mem_upToBrace (by decide) hitems, mul_assoc, mul_assoc, mem_singleton_mul]
  simp [upToBrace]

theorem lineComment_mem_upToBrace : '/' :: '/' :: w ∈ upToBrace ↔ w ∈ lineCommentRest * upToBrace := by
  refine slash_mem_upToBrace (by decide) fun i => ?_
  rw [isItems_cons_iff]
  simp [StartsComment, mem_singleton_mul]

theorem blockComment_mem_upToBrace : '/' :: '*' :: w ∈ upToBrace ↔ w ∈ blockCommentRest * upToBrace := by
  refine slash_mem_upToBrace (by decide) fun i => ?_
  rw [isItems_cons_iff]
  simp [StartsComment, mem_singleton_mul]

theorem other_mem_upToBrace (hc : c ∉ ['{', '}', '\'', '"', '`']) (hcomment : ¬StartsComment c w) :
    c :: w ∈ upToBrace ↔ w ∈ upToBrace := by
  have hitems (i : List Char) (hi : w = i ++ ['}']) : IsItems (c :: i) ↔ i ∈ items := by
    have hstarts : ¬StartsComment c i := fun h => hcomment (hi ▸ h.of_append)
    constructor
    · intro h
      rcases isItems_cons_iff.mp h with
        ⟨rfl, -⟩ | ⟨hquote, -⟩ | ⟨rfl, -⟩ | ⟨rfl, hline⟩ | ⟨rfl, hblock⟩ | ⟨-, -, hrest⟩
      · simp at hc
      · simp_all
      · simp at hc
      · obtain ⟨v, rfl, -⟩ := mem_singleton_mul.mp hline
        exact absurd ⟨rfl, .inl rfl⟩ hstarts
      · obtain ⟨v, rfl, -⟩ := mem_singleton_mul.mp hblock
        exact absurd ⟨rfl, .inr rfl⟩ hstarts
      · exact hrest
    · exact fun h => .other hc hstarts h
  rw [cons_mem_upToBrace (by rintro rfl; simp at hc) hitems]
  rfl

theorem nil_not_mem_upToBrace : [] ∉ upToBrace := by
  rw [upToBrace, mem_mul_singleton]
  simp

section Rests

variable {quote : Char}

theorem nil_not_mem_stringRest : [] ∉ stringRest quote := nofun

theorem nil_not_mem_templateRest : [] ∉ templateRest := nofun

theorem nil_not_mem_lineCommentRest : [] ∉ lineCommentRest := by
  rintro ⟨b, -, hb⟩
  simp at hb

theorem nil_not_mem_blockCommentRest : [] ∉ blockCommentRest := by
  rintro ⟨b, -, hb⟩
  simp at hb

theorem escape_mem_stringRest (hquote : quote ≠ '\\') :
    '\\' :: c :: w ∈ stringRest quote ↔ w ∈ stringRest quote := by
  constructor
  · intro h
    cases h with
    | escape c rest => exact rest
    | plain hc rest => simp at hc
  · exact .escape c

theorem backslash_not_mem_stringRest (hquote : quote ≠ '\\') : ['\\'] ∉ stringRest quote := by
  intro h
  cases h with
  | close => exact hquote rfl
  | plain hc rest => simp at hc

theorem close_mem_stringRest (hquote : quote ≠ '\\') : quote :: w ∈ stringRest quote ↔ w = [] := by
  constructor
  · intro h
    cases h with
    | close => rfl
    | escape c rest => exact absurd rfl hquote
    | plain hc rest => simp at hc
  · rintro rfl
    exact .close

theorem plain_mem_stringRest (hc : c ≠ '\\') (hquote : c ≠ quote) :
    c :: w ∈ stringRest quote ↔ c ≠ '\n' ∧ w ∈ stringRest quote := by
  constructor
  · intro h
    cases h with
    | close => exact absurd rfl hquote
    | escape c rest => exact absurd rfl hc
    | plain hc rest => exact ⟨by simp_all, rest⟩
  · exact fun h => .plain (by simp [hc, hquote, h.1]) h.2

theorem escape_mem_templateRest : '\\' :: c :: w ∈ templateRest ↔ w ∈ templateRest := by
  constructor
  · intro h
    cases h with
    | escape c rest => exact rest
    | plain hc hopen rest => simp at hc
  · exact .escape c

theorem backslash_not_mem_templateRest : ['\\'] ∉ templateRest := by
  intro h
  cases h with
  | plain hc hopen rest => simp at hc

theorem close_mem_templateRest : '`' :: w ∈ templateRest ↔ w = [] := by
  constructor
  · intro h
    cases h with
    | close => rfl
    | plain hc hopen rest => simp at hc
  · rintro rfl
    exact .close

theorem substitution_mem_templateRest : '$' :: '{' :: w ∈ templateRest ↔ w ∈ upToBrace * templateRest := by
  constructor
  · intro h
    generalize he : '$' :: '{' :: w = x at h
    cases h with
    | close | escape => cases he
    | substitution head rest =>
      obtain ⟨v, hv, rfl⟩ := head.exists_eq
      obtain ⟨-, hw⟩ := List.cons.inj he
      obtain ⟨-, rfl⟩ := List.cons.inj hw
      exact Language.append_mem_mul hv rest
    | plain hc hopen rest =>
      obtain ⟨rfl, rfl⟩ := List.cons.inj he
      exact absurd ⟨rfl, rfl⟩ hopen
  · intro h
    obtain ⟨u, hu, v, hv, rfl⟩ := Language.mem_mul.mp h
    exact .substitution (isExpression_iff.mpr hu) hv

theorem plain_mem_templateRest (hc : c ≠ '\\') (hquote : c ≠ '`') (hopen : ¬(c = '$' ∧ w.head? = some '{')) :
    c :: w ∈ templateRest ↔ w ∈ templateRest := by
  constructor
  · intro h
    generalize he : c :: w = x at h
    cases h with
    | close => exact absurd (List.cons.inj he).1 hquote
    | escape c rest => exact absurd (List.cons.inj he).1 hc
    | substitution head rest =>
      obtain ⟨v, -, rfl⟩ := head.exists_eq
      obtain ⟨rfl, rfl⟩ := List.cons.inj he
      exact absurd ⟨rfl, rfl⟩ hopen
    | plain hc hopen rest =>
      obtain ⟨-, rfl⟩ := List.cons.inj he
      exact rest
  · exact fun h => .plain (by simp [hc, hquote]) hopen h

theorem dollar_not_mem_templateRest : ['$'] ∉ templateRest := by
  rw [plain_mem_templateRest (by decide) (by decide) (by simp)]
  exact nil_not_mem_templateRest

theorem lineFeed_mem_lineCommentRest : '\n' :: w ∈ lineCommentRest ↔ w = [] := by
  constructor
  · rintro ⟨b, hb, he⟩
    cases b with
    | nil => exact (List.cons.inj he).2
    | cons e b =>
      obtain ⟨rfl, -⟩ := List.cons.inj he
      exact absurd List.mem_cons_self hb
  · rintro rfl
    exact ⟨[], by simp, rfl⟩

theorem plain_mem_lineCommentRest (hc : c ≠ '\n') : c :: w ∈ lineCommentRest ↔ w ∈ lineCommentRest := by
  constructor
  · rintro ⟨b, hb, he⟩
    cases b with
    | nil => exact absurd (List.cons.inj he).1 hc
    | cons e b => exact ⟨b, fun hmem => hb (List.mem_cons_of_mem e hmem), (List.cons.inj he).2⟩
  · rintro ⟨b, hb, rfl⟩
    exact ⟨c :: b, by simp [hb, hc.symm], rfl⟩

theorem close_mem_blockCommentRest : '*' :: '/' :: w ∈ blockCommentRest ↔ w = [] := by
  constructor
  · rintro ⟨b, hb, he⟩
    match b with
    | [] => simpa using he
    | [e] => simp at he
    | e :: f :: b =>
      simp only [List.cons_append, List.cons.injEq] at he
      obtain ⟨rfl, rfl, -⟩ := he
      exact absurd (List.infix_append [] ['*', '/'] b) hb
  · rintro rfl
    exact ⟨[], by simp, rfl⟩

theorem plain_mem_blockCommentRest (h : ¬(c = '*' ∧ w.head? = some '/')) :
    c :: w ∈ blockCommentRest ↔ w ∈ blockCommentRest := by
  constructor
  · rintro ⟨b, hb, he⟩
    cases b with
    | nil =>
      obtain ⟨rfl, rfl⟩ := List.cons.inj he
      exact absurd ⟨rfl, rfl⟩ h
    | cons e b => exact ⟨b, fun hmem => hb (hmem.trans (List.suffix_cons e b).isInfix), (List.cons.inj he).2⟩
  · rintro ⟨b, hb, rfl⟩
    refine ⟨c :: b, fun hinfix => ?_, rfl⟩
    rcases List.infix_cons_iff.mp hinfix with ⟨v, hv⟩ | hinfix
    · simp only [List.cons_append, List.nil_append, List.cons.injEq] at hv
      obtain ⟨rfl, rfl⟩ := hv
      exact h ⟨rfl, rfl⟩
    · exact hb hinfix

theorem star_not_mem_blockCommentRest : ['*'] ∉ blockCommentRest := by
  rw [plain_mem_blockCommentRest (by simp)]
  exact nil_not_mem_blockCommentRest

end Rests

end Languages

section Scan

def Frame.closing : Frame → Language Char
  | .braces _ depth => upToBrace ^ depth.toNat
  | .template _ => templateRest
  | .quoted quote _ => stringRest quote
  | .lineComment => lineCommentRest
  | .blockComment => blockCommentRest

def closing (fs : List Frame) : Language Char := (fs.map Frame.closing).prod

variable {f : Frame} {fs gs below : List Frame} {pos stop start : Nat} {c d : Char} {text : List Char}

theorem closing_append : closing (fs ++ gs) = closing fs * closing gs := by
  simp [closing]

theorem closing_cons : closing (f :: fs) = f.closing * closing fs := by
  simp [closing]

theorem closing_singleton : closing [f] = f.closing := by
  simp [closing]

/-- Some brace is open, and what quotes a string is a quote. -/
def Frame.IsProper : Frame → Prop
  | .braces _ depth => 0 < depth
  | .quoted quote _ => quote = '"' ∨ quote = '\''
  | _ => True

theorem closing_braces_succ (start n : Nat) : (Frame.braces start (n + 1)).closing = upToBrace * upToBrace ^ n := by
  rw [Frame.closing, ← pow_succ']
  rfl

theorem Frame.IsProper.exists_depth {depth : Int} (h : (Frame.braces start depth).IsProper) :
    ∃ n : Nat, depth = n + 1 := by
  have hpos : 0 < depth := h
  exact ⟨(depth - 1).toNat, by omega⟩

theorem Frame.IsProper.nil_not_mem (h : f.IsProper) : [] ∉ f.closing := by
  cases f with
  | braces start depth =>
    obtain ⟨n, rfl⟩ := h.exists_depth
    rw [closing_braces_succ, Language.mem_mul]
    rintro ⟨u, hu, v, -, he⟩
    exact nil_not_mem_upToBrace ((List.append_eq_nil_iff.mp he).1 ▸ hu)
  | template => exact nil_not_mem_templateRest
  | quoted => exact nil_not_mem_stringRest
  | lineComment => exact nil_not_mem_lineCommentRest
  | blockComment => exact nil_not_mem_blockCommentRest

/-- The text begins with what closes the frames, and that ends at `stop`. -/
def Consumes (fs : List Frame) (pos stop : Nat) (text : List Char) : Prop :=
  ∃ used rest, text = used ++ rest ∧ stop = pos + used.length ∧ used ∈ closing fs

theorem not_consumes_nil (hf : f.IsProper) : ¬Consumes (f :: below) pos stop [] := by
  rintro ⟨used, rest, he, -, hmem⟩
  obtain ⟨rfl, -⟩ := List.append_eq_nil_iff.mp he.symm
  rw [closing_cons, Language.mem_mul] at hmem
  obtain ⟨u, hu, v, -, he⟩ := hmem
  exact hf.nil_not_mem ((List.append_eq_nil_iff.mp he).1 ▸ hu)

theorem not_consumes_cons (hf : f.IsProper) (h : ∀ u, u <+: text → c :: u ∉ f.closing) :
    ¬Consumes (f :: below) pos stop (c :: text) := by
  rintro ⟨used, rest, he, -, hmem⟩
  rw [closing_cons, Language.mem_mul] at hmem
  obtain ⟨u, hu, v, -, rfl⟩ := hmem
  cases u with
  | nil => exact hf.nil_not_mem hu
  | cons e u =>
    rw [List.append_assoc] at he
    obtain ⟨rfl, htext⟩ := List.cons.inj he
    exact h u ⟨v ++ rest, htext.symm⟩ hu

theorem consumes_append {p : List Char} (gs : List Frame) (hp : Outlasts f.closing p)
    (h : ∀ u, u <+: text → (p ++ u ∈ f.closing ↔ u ∈ closing gs)) :
    Consumes (f :: below) pos stop (p ++ text) ↔ Consumes (gs ++ below) (pos + p.length) stop text := by
  have hstep {used rest : List Char} (he : text = used ++ rest) :
      p ++ used ∈ closing (f :: below) ↔ used ∈ closing (gs ++ below) := by
    rw [closing_cons, closing_append]
    exact hp.append_mem_mul_iff fun v hv => h v (hv.trans ⟨rest, he.symm⟩)
  constructor
  · rintro ⟨used, rest, he, rfl, hmem⟩
    obtain ⟨used, rfl⟩ := (closing_cons ▸ hp.mul : Outlasts (closing (f :: below)) p).prefix_of_mem hmem he
    rw [List.append_assoc] at he
    have htext := List.append_cancel_left he
    exact ⟨used, rest, htext, by simp only [List.length_append]; omega, (hstep htext).mp hmem⟩
  · rintro ⟨used, rest, rfl, rfl, hmem⟩
    exact ⟨p ++ used, rest, by rw [List.append_assoc], by simp only [List.length_append]; omega, (hstep rfl).mpr hmem⟩

theorem consumes_cons (gs : List Frame) (hf : f.IsProper)
    (h : ∀ u, u <+: text → (c :: u ∈ f.closing ↔ u ∈ closing gs)) :
    Consumes (f :: below) pos stop (c :: text) ↔ Consumes (gs ++ below) (pos + 1) stop text :=
  consumes_append gs (p := [c]) (outlasts_singleton hf.nil_not_mem) h

theorem consumes_cons_cons (gs : List Frame) (hf : f.IsProper) (hc : [c] ∉ f.closing)
    (h : ∀ u, u <+: text → (c :: d :: u ∈ f.closing ↔ u ∈ closing gs)) :
    Consumes (f :: below) pos stop (c :: d :: text) ↔ Consumes (gs ++ below) (pos + 2) stop text :=
  consumes_append gs (p := [c, d]) (outlasts_pair hf.nil_not_mem hc) h

theorem consumes_stay (hf : f.IsProper) (h : ∀ u, u <+: text → (c :: u ∈ f.closing ↔ u ∈ f.closing)) :
    Consumes (f :: below) pos stop (c :: text) ↔ Consumes (f :: below) (pos + 1) stop text :=
  consumes_cons [f] hf (by simpa only [closing_singleton] using h)

theorem consumes_stay_pair (hf : f.IsProper) (hc : [c] ∉ f.closing)
    (h : ∀ u, u <+: text → (c :: d :: u ∈ f.closing ↔ u ∈ f.closing)) :
    Consumes (f :: below) pos stop (c :: d :: text) ↔ Consumes (f :: below) (pos + 2) stop text :=
  consumes_cons_cons [f] hf hc (by simpa only [closing_singleton] using h)

theorem consumes_leave (hf : f.IsProper) (h : ∀ u, c :: u ∈ f.closing ↔ u = []) :
    Consumes (f :: below) pos stop (c :: text) ↔ Consumes below (pos + 1) stop text :=
  consumes_cons [] hf fun u _ => h u

theorem slash_not_mem_upToBrace : ['/'] ∉ upToBrace := by
  rw [other_mem_upToBrace (by decide) (by simp [StartsComment])]
  exact nil_not_mem_upToBrace

section Braces

variable {n : Nat} {p : List Char} {K : Language Char} (hp : Outlasts upToBrace p)

include hp

theorem consumes_braces (gs : List Frame) (h : ∀ u, u <+: text → (p ++ u ∈ upToBrace ↔ u ∈ K))
    (hgs : closing gs = K * upToBrace ^ n) :
    Consumes (.braces start (n + 1) :: below) pos stop (p ++ text) ↔
      Consumes (gs ++ below) (pos + p.length) stop text := by
  have hclosing := closing_braces_succ start n
  refine consumes_append gs (hclosing ▸ hp.mul) fun u hu => ?_
  rw [hclosing, hgs]
  exact hp.append_mem_mul_iff fun v hv => h v (hv.trans hu)

theorem consumes_braces_stay (h : ∀ u, u <+: text → (p ++ u ∈ upToBrace ↔ u ∈ upToBrace)) :
    Consumes (.braces start (n + 1) :: below) pos stop (p ++ text) ↔
      Consumes (.braces start (n + 1) :: below) (pos + p.length) stop text :=
  consumes_braces hp [.braces start (n + 1)] h (by rw [closing_singleton, closing_braces_succ])

theorem consumes_braces_enter (f : Frame) (h : ∀ u, p ++ u ∈ upToBrace ↔ u ∈ f.closing * upToBrace) :
    Consumes (.braces start (n + 1) :: below) pos stop (p ++ text) ↔
      Consumes (f :: .braces start (n + 1) :: below) (pos + p.length) stop text := by
  refine consumes_braces hp [f, .braces start (n + 1)] (fun u _ => h u) ?_
  rw [closing_cons, closing_singleton, closing_braces_succ, mul_assoc]

end Braces

theorem closing_braces_one (start : Nat) : (Frame.braces start 1).closing = upToBrace := pow_one upToBrace

theorem Frame.IsProper.braces_one (start : Nat) : (Frame.braces start 1).IsProper := Int.one_pos

theorem head?_mono {u : List Char} (hu : u <+: text) (h : u.head? = some d) : text.head? = some d := by
  obtain ⟨rest, rfl⟩ := hu
  obtain ⟨u, rfl⟩ := List.head?_eq_some_iff.mp h
  rfl

theorem ne_backslash_of_quote (h : c = '"' ∨ c = '\'') : c ≠ '\\' := by
  rcases h with rfl | rfl <;> decide

theorem consumes_nil : Consumes [] pos stop text ↔ stop = pos := by
  constructor
  · rintro ⟨used, rest, -, rfl, hused⟩
    obtain rfl := (Language.mem_one used).mp hused
    rfl
  · rintro rfl
    exact ⟨[], text, rfl, rfl, Language.nil_mem_one⟩

section Steps

variable {now : List Frame} {used : List Char} {next : Option Char}

theorem Frame.Step.isProper (h : f.Step pos next used now) (hf : f.IsProper) : ∀ g ∈ now, g.IsProper := by
  have hquoted {c : Char} (hc : c = '"' ∨ c = '\'') : (Frame.quoted c pos).IsProper := hc
  have htemplate : (Frame.template pos).IsProper := trivial
  cases h with
  | stringEscape | stringPlain | templateEscape | templatePlain | linePlain | blockPlain | other => simpa using hf
  | stringClose | templateClose | lineEnd | blockEnd | lastBrace => nofun
  | substitution => simpa using ⟨Frame.IsProper.braces_one (pos + 1), hf⟩
  | openString hquote => simpa using ⟨hquoted hquote, hf⟩
  | openTemplate => simpa using ⟨htemplate, hf⟩
  | openLine | openBlock => simpa using ⟨trivial, hf⟩
  | openBrace | closeBrace =>
    have hdepth := hf
    simp only [Frame.IsProper, List.mem_singleton, forall_eq] at hdepth ⊢
    omega

/-! What closes the frames before a step, by the frame that is innermost. -/

theorem consumes_quoted {quote : Char} (h : (Frame.quoted quote start).Step pos text.head? used now)
    (hf : (Frame.quoted quote start).IsProper) :
    Consumes (.quoted quote start :: below) pos stop (used ++ text) ↔
      Consumes (now ++ below) (pos + used.length) stop text := by
  have hquote := ne_backslash_of_quote hf
  cases h with
  | stringEscape =>
    exact consumes_stay_pair hf (backslash_not_mem_stringRest hquote) fun u _ => escape_mem_stringRest hquote
  | stringClose => exact consumes_leave hf fun u => close_mem_stringRest hquote
  | stringPlain hescape hclose hfeed =>
    exact consumes_stay hf fun u _ => (plain_mem_stringRest hescape hclose).trans (and_iff_right hfeed)

theorem consumes_template (h : (Frame.template start).Step pos text.head? used now) :
    Consumes (.template start :: below) pos stop (used ++ text) ↔
      Consumes (now ++ below) (pos + used.length) stop text := by
  have hf : (Frame.template start).IsProper := trivial
  cases h with
  | templateEscape =>
    exact consumes_stay_pair hf backslash_not_mem_templateRest fun u _ => escape_mem_templateRest
  | templateClose => exact consumes_leave hf fun u => close_mem_templateRest
  | substitution =>
    have hentered : closing [.braces (pos + 1) 1, .template start] = upToBrace * templateRest := by
      rw [closing_cons, closing_singleton, closing_braces_one, Frame.closing]
    refine consumes_cons_cons _ hf dollar_not_mem_templateRest fun u _ => ?_
    rw [hentered]
    exact substitution_mem_templateRest
  | templatePlain hescape hquote hopen =>
    refine consumes_stay hf fun u hu => plain_mem_templateRest hescape hquote fun hbrace => hopen ?_
    exact hbrace.imp_right (head?_mono hu)

theorem consumes_lineComment (h : Frame.lineComment.Step pos text.head? used now) :
    Consumes (.lineComment :: below) pos stop (used ++ text) ↔
      Consumes (now ++ below) (pos + used.length) stop text := by
  have hf : Frame.lineComment.IsProper := trivial
  cases h with
  | lineEnd => exact consumes_leave hf fun u => lineFeed_mem_lineCommentRest
  | linePlain hfeed => exact consumes_stay hf fun u _ => plain_mem_lineCommentRest hfeed

theorem consumes_blockComment (h : Frame.blockComment.Step pos text.head? used now) :
    Consumes (.blockComment :: below) pos stop (used ++ text) ↔
      Consumes (now ++ below) (pos + used.length) stop text := by
  have hf : Frame.blockComment.IsProper := trivial
  cases h with
  | blockEnd => exact consumes_cons_cons [] hf star_not_mem_blockCommentRest fun u _ => close_mem_blockCommentRest
  | blockPlain hend =>
    exact consumes_stay hf fun u hu => plain_mem_blockCommentRest fun h => hend (h.imp_right (head?_mono hu))

theorem consumes_of_braces {depth : Int} (h : (Frame.braces start depth).Step pos text.head? used now)
    (hf : (Frame.braces start depth).IsProper) :
    Consumes (.braces start depth :: below) pos stop (used ++ text) ↔
      Consumes (now ++ below) (pos + used.length) stop text := by
  obtain ⟨n, rfl⟩ := hf.exists_depth
  have hone {c : Char} : Outlasts upToBrace [c] := outlasts_singleton nil_not_mem_upToBrace
  have hslash {c : Char} : Outlasts upToBrace ['/', c] :=
    outlasts_pair nil_not_mem_upToBrace slash_not_mem_upToBrace
  cases h with
  | openString hquote => exact consumes_braces_enter hone (.quoted _ pos) fun u => quote_mem_upToBrace hquote
  | openTemplate => exact consumes_braces_enter hone (.template pos) fun u => backtick_mem_upToBrace
  | openLine => exact consumes_braces_enter hslash .lineComment fun u => lineComment_mem_upToBrace
  | openBlock => exact consumes_braces_enter hslash .blockComment fun u => blockComment_mem_upToBrace
  | openBrace =>
    have hclosing : closing [.braces start (n + 1 + 1)] = upToBrace * upToBrace * upToBrace ^ n := by
      rw [closing_singleton, ← Int.natCast_add_one, closing_braces_succ, pow_succ', mul_assoc]
    exact consumes_braces hone _ (fun u _ => openBrace_mem_upToBrace) hclosing
  | lastBrace =>
    have hclosing : closing [] = 1 * upToBrace ^ 0 := by
      rw [pow_zero, mul_one]
      rfl
    exact consumes_braces hone [] (fun u _ => closeBrace_mem_upToBrace) hclosing
  | closeBrace =>
    have hclosing : closing [.braces start (n + 1 - 1)] = 1 * upToBrace ^ n := by
      rw [closing_singleton, one_mul, Int.add_sub_cancel]
      rfl
    exact consumes_braces hone _ (fun u _ => closeBrace_mem_upToBrace) hclosing
  | other hc hcomment =>
    refine consumes_braces_stay hone fun u hu => other_mem_upToBrace hc fun hstarts => hcomment ?_
    exact hstarts.imp_right (Or.imp (head?_mono hu) (head?_mono hu))

theorem Frame.Step.consumes_iff (h : f.Step pos text.head? used now) (hf : f.IsProper) :
    Consumes (f :: below) pos stop (used ++ text) ↔ Consumes (now ++ below) (pos + used.length) stop text := by
  cases f with
  | braces => exact consumes_of_braces h hf
  | template => exact consumes_template h
  | quoted => exact consumes_quoted h hf
  | lineComment => exact consumes_lineComment h
  | blockComment => exact consumes_blockComment h

theorem Frame.Stops.not_consumes {e : ParseError} (h : f.Stops pos text e) (hf : f.IsProper) :
    ¬Consumes (f :: below) pos stop text := by
  cases h with
  | stringEnd =>
    refine not_consumes_cons hf fun u hu hmem => ?_
    obtain rfl := List.prefix_nil.mp hu
    exact backslash_not_mem_stringRest (ne_backslash_of_quote hf) hmem
  | lineFeed hquote =>
    refine not_consumes_cons hf fun u hu hmem => ?_
    exact ((plain_mem_stringRest (by decide) hquote).mp hmem).1 rfl
  | templateEnd =>
    refine not_consumes_cons hf fun u hu hmem => ?_
    obtain rfl := List.prefix_nil.mp hu
    exact backslash_not_mem_templateRest hmem

end Steps

theorem ScanRun.eq_ok_iff {r : Except ParseError Nat} (h : ScanRun fs pos text r)
    (hproper : ∀ f ∈ fs, f.IsProper) : r = .ok stop ↔ Consumes fs pos stop text := by
  induction h with
  | closed => rw [consumes_nil, Except.ok.injEq, eq_comm]
  | unfinished => exact iff_of_false nofun (not_consumes_nil (hproper _ List.mem_cons_self))
  | stops hstops => exact iff_of_false nofun (hstops.not_consumes (hproper _ List.mem_cons_self))
  | step head tail ih =>
    obtain ⟨hf, hbelow⟩ := List.forall_mem_cons.mp hproper
    rw [ih (List.forall_mem_append.mpr ⟨head.isProper hf, hbelow⟩), head.consumes_iff hf]

theorem scan_eq_ok_iff (hg : Grounded fs) (hproper : ∀ f ∈ fs, f.IsProper) :
    scan fs pos text = .ok stop ↔ Consumes fs pos stop text :=
  (scanRun_scan hg).eq_ok_iff hproper

theorem balanced_cons_iff_isExpression {w : List Char} : Balanced ('{' :: w) ↔ IsExpression ('{' :: w) := by
  have hproper : ∀ f ∈ [Frame.braces 0 1], f.IsProper := by simp [Frame.IsProper.braces_one]
  have hscan : skipExpression 0 ('{' :: w) = scan [.braces 0 1] 1 w := scan_openBrace 0 0 0 w
  rw [Balanced, hscan, scan_eq_ok_iff (grounded_braces 0 1) hproper, isExpression_iff]
  constructor
  · rintro ⟨used, rest, rfl, hlength, hused⟩
    obtain rfl : rest = [] := by
      rw [← List.length_eq_zero_iff]
      simp only [List.length_cons, List.length_append] at hlength
      omega
    rwa [List.append_nil, ← closing_braces_one 0, ← closing_singleton]
  · intro h
    refine ⟨w, [], (List.append_nil w).symm, Nat.add_comm w.length 1, ?_⟩
    rwa [closing_singleton, closing_braces_one]

theorem skipExpression_eq_ok_iff_isExpression (h : text.head? = some '{') :
    skipExpression pos text = .ok stop ↔ ∃ e, e <+: text ∧ IsExpression e ∧ stop = pos + e.length := by
  rw [skipExpression_eq_ok_iff]
  constructor
  · rintro ⟨e, rest, rfl, hstop, he⟩
    cases e with
    | nil => exact absurd rfl he.ne_nil
    | cons c e =>
      obtain rfl : c = '{' := by simpa using h
      exact ⟨'{' :: e, List.prefix_append _ rest, balanced_cons_iff_isExpression.mp he, hstop⟩
  · rintro ⟨e, ⟨rest, rfl⟩, he, hstop⟩
    obtain ⟨w, -, rfl⟩ := he.exists_eq
    exact ⟨_, rest, rfl, hstop, balanced_cons_iff_isExpression.mpr he⟩

/-- The scan of an expression accepts exactly what the grammar accepts, of which a text has at most one part from
an open brace on. -/
theorem skipExpression_grammar {text : List Char} {pos : Nat} (h : text[pos]? = some '{') :
    (∀ stop, skipExpression pos (text.drop pos) = .ok stop ↔
        stop ≤ text.length ∧ IsExpression (Text.slice pos stop text)) ∧
      (∀ stop other, stop ≤ text.length → other ≤ text.length → IsExpression (Text.slice pos stop text) →
        IsExpression (Text.slice pos other text) → stop = other) ∧
      ((∃ e, skipExpression pos (text.drop pos) = .error e) ↔
        ∀ part, part <+: text.drop pos → ¬IsExpression part) := by
  have hhead : (text.drop pos).head? = some '{' := by rw [List.head?_drop, h]
  have haccepts (stop : Nat) : skipExpression pos (text.drop pos) = .ok stop ↔
      stop ≤ text.length ∧ IsExpression (Text.slice pos stop text) := by
    rw [skipExpression_eq_ok_iff_isExpression hhead]
    constructor
    · rintro ⟨e, hprefix, he, rfl⟩
      have hlength := hprefix.length_le
      rw [List.length_drop] at hlength
      have hpos := List.getElem?_eq_some_iff.mp h |>.1
      rw [Text.slice, Nat.add_sub_cancel_left, ← List.prefix_iff_eq_take.mp hprefix]
      exact ⟨by omega, he⟩
    · rintro ⟨hstop, he⟩
      refine ⟨_, List.take_prefix _ _, he, ?_⟩
      obtain ⟨w, -, hw⟩ := he.exists_eq
      have hpos : (Text.slice pos stop text).length ≠ 0 := by simp [hw]
      simp only [Text.slice, List.length_take, List.length_drop] at hpos ⊢
      omega
  refine ⟨haccepts, fun stop other hstop hother he he' => ?_, ?_⟩
  · have hstop' := (haccepts stop).mpr ⟨hstop, he⟩
    have hother' := (haccepts other).mpr ⟨hother, he'⟩
    exact Except.ok.inj (hstop'.symm.trans hother')
  · constructor
    · rintro ⟨e, herror⟩ part hprefix hpart
      have hok : skipExpression pos (text.drop pos) = .ok (pos + part.length) :=
        (skipExpression_eq_ok_iff_isExpression hhead).mpr ⟨part, hprefix, hpart, rfl⟩
      rw [herror] at hok
      cases hok
    · intro hnone
      cases hresult : skipExpression pos (text.drop pos) with
      | error e => exact ⟨e, rfl⟩
      | ok stop =>
        obtain ⟨part, hprefix, hpart, -⟩ := (skipExpression_eq_ok_iff_isExpression hhead).mp hresult
        exact absurd hpart (hnone part hprefix)

/-- Braces in a string, in a template literal and in comments. -/
theorem skipExpression_grammar_nested :
    let text := "a=\x7b'\x7d'+`\x7b$\x7b \x7b\x7d \x7d`/* \x7d */// \x7d\n\x7d\x7d".toList
    text[2]? = some '{' ∧ IsExpression (Text.slice 2 30 text) ∧ ¬IsExpression (Text.slice 2 31 text) := by
  intro text
  have h : text[2]? = some '{' := by decide +kernel
  obtain ⟨haccepts, hunique, -⟩ := skipExpression_grammar h
  have he := ((haccepts 30).mp (by decide +kernel)).2
  refine ⟨h, he, fun hlonger => ?_⟩
  exact absurd (hunique 30 31 (by decide +kernel) (by decide +kernel) he hlonger) (by decide)

end Scan

end ComponentDoc.Markup
