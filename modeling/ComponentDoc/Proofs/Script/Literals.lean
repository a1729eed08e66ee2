import ComponentDoc.Proofs.Script.Regular

namespace ComponentDoc.Script

theorem quotedRest_suffix {quote : Char} {place : QuotePlace} {s after : List Char} {stop : QuoteStop}
    (h : quotedRest quote place s = some (stop, after)) : after <:+ s := by
  fun_induction quotedRest quote place s with
  | case1 | case3 | case6 | case9 | case11 | case13 | case18 => cases h
  | case2 c rest _ ih => exact (ih h).trans (List.suffix_append [_] _)
  | case4 rest ih => exact (ih h).trans (List.suffix_append ['}'] _)
  | case5 c rest _ _ ih => exact (ih h).trans (List.suffix_append [_] _)
  | case7 rest ih => exact (ih h).trans (List.suffix_append ['\\', 'u', '{'] _)
  | case8 a b c d rest _ _ ih => exact (ih h).trans (List.suffix_append ['\\', 'u', a, b, c, d] _)
  | case10 a b rest _ ih => exact (ih h).trans (List.suffix_append ['\\', 'x', a, b] _)
  | case12 rest ih => exact (ih h).trans (List.suffix_append ['\\', '\r', '\n'] _)
  | case14 c rest _ _ _ _ _ ih => exact (ih h).trans (List.suffix_append ['\\', c] _)
  | case15 rest =>
    cases h
    exact List.suffix_append [_] _
  | case16 _ rest =>
    cases h
    exact List.suffix_append ['$', '{'] _
  | case17 c _ _ rest _ _ _ _ _ _ ih => exact (ih h).trans (List.suffix_append [c] _)
  | case19 c rest _ _ _ _ _ _ _ _ ih => exact (ih h).trans (List.suffix_append [c] _)

theorem quotedRest_cons {quote c : Char} {rest : List Char} (hescape : c ≠ '\\') (hquote : c ≠ quote)
    (hsubstitution : quote = '`' → c = '$' → ∀ more, rest ≠ '{' :: more)
    (hbreak : quote ≠ '`' → c ≠ '\n' ∧ c ≠ '\r') :
    quotedRest quote .plain (c :: rest) = quotedRest quote .plain rest := by
  by_cases hback : quote = '`'
  · rw [quotedRest, if_neg hquote, if_pos hback]
    · exact fun rest hc _ => hescape hc
    · exact fun _ _ _ _ rest hc _ => hescape hc
    · exact fun _ _ rest hc _ => hescape hc
    · exact fun rest hc _ => hescape hc
    · exact fun _ rest hc _ => hescape hc
    · exact fun more hc hmore => hsubstitution hback hc more hmore
  · have hplain : ¬(c = '\n' ∨ c = '\r' ∨ c = '\\') := by
      rintro (hc | hc | hc)
      exacts [(hbreak hback).1 hc, (hbreak hback).2 hc, hescape hc]
    rw [quotedRest.eq_def]
    split
    all_goals simp_all

theorem quotedRest_quote {quote : Char} {place : QuotePlace} {s after : List Char}
    (h : quotedRest quote place s = some (.quote, after)) :
    ∃ body, s = body ++ quote :: after ∧ quotedRest quote place (body ++ [quote]) = some (.quote, []) := by
  fun_induction quotedRest quote place s with
  | case1 | case3 | case6 | case9 | case11 | case13 | case18 | case16 => cases h
  | case2 c rest hc ih =>
    obtain ⟨body, rfl, hbody⟩ := ih h
    exact ⟨c :: body, rfl, by rwa [List.cons_append, quotedRest, if_pos hc]⟩
  | case4 rest ih =>
    obtain ⟨body, rfl, hbody⟩ := ih h
    exact ⟨'}' :: body, rfl, by rwa [List.cons_append, quotedRest, if_pos rfl]⟩
  | case5 c rest hbrace hc ih =>
    obtain ⟨body, rfl, hbody⟩ := ih h
    exact ⟨c :: body, rfl, by rwa [List.cons_append, quotedRest, if_neg hbrace, if_pos hc]⟩
  | case7 rest ih =>
    obtain ⟨body, rfl, hbody⟩ := ih h
    exact ⟨'\\' :: 'u' :: '{' :: body, rfl, hbody⟩
  | case8 a b c d rest hbrace hhex ih =>
    obtain ⟨body, rfl, hbody⟩ := ih h
    exact ⟨'\\' :: 'u' :: a :: b :: c :: d :: body, rfl, by simpa [quotedRest, hbrace, hhex] using hbody⟩
  | case10 a b rest hhex ih =>
    obtain ⟨body, rfl, hbody⟩ := ih h
    exact ⟨'\\' :: 'x' :: a :: b :: body, rfl, by simpa [quotedRest, hhex] using hbody⟩
  | case12 rest ih =>
    obtain ⟨body, rfl, hbody⟩ := ih h
    exact ⟨'\\' :: '\r' :: '\n' :: body, rfl, hbody⟩
  | case14 c rest _ _ _ hfeed hletter ih =>
    obtain ⟨body, rfl, hbody⟩ := ih h
    refine ⟨'\\' :: c :: body, rfl, ?_⟩
    have hnot : ∀ rest, c = '\r' → body ++ [quote] = '\n' :: rest → False := by
      intro rest hc hbody
      refine hfeed (rest ++ after) hc ?_
      rw [← List.cons_append, ← hbody, List.append_assoc, List.singleton_append]
    rw [List.cons_append, List.cons_append, quotedRest, if_neg hletter]
    · exact hbody
    · exact fun rest hc _ => hletter (.inr hc)
    · exact fun _ _ _ _ rest hc _ => hletter (.inr hc)
    · exact fun _ _ rest hc _ => hletter (.inl hc)
    · exact hnot
  | case15 rest =>
    cases h
    exact ⟨[], rfl, by simp [quotedRest]⟩
  | case17 c hquote hback rest hbrace _ _ _ _ hescape ih =>
    obtain ⟨body, rfl, hbody⟩ := ih h
    have hc : c ≠ '\\' := fun hc => by
      cases body with
      | nil => exact hescape _ _ hc rfl
      | cons d body => exact hescape _ _ hc rfl
    have hnot (hdollar : c = '$') (more : List Char) (hmore : body ++ [quote] = '{' :: more) : False := by
      refine hbrace (more ++ after) hdollar ?_
      rw [← List.cons_append, ← hmore, List.append_assoc, List.singleton_append]
    refine ⟨c :: body, rfl, ?_⟩
    rw [List.cons_append, quotedRest_cons hc hquote (fun _ => hnot) (absurd hback)]
    exact hbody
  | case19 c rest _ _ _ _ _ hquote hback hbreak ih =>
    obtain ⟨body, rfl, hbody⟩ := ih h
    obtain ⟨hn, hr, hc⟩ := not_or.mp hbreak |>.imp_right not_or.mp
    refine ⟨c :: body, rfl, ?_⟩
    rw [List.cons_append, quotedRest_cons hc hquote (fun h => absurd h hback) fun _ => ⟨hn, hr⟩]
    exact hbody

theorem backquote_of_substitution {quote : Char} {place : QuotePlace} {s after : List Char}
    (h : quotedRest quote place s = some (.substitution, after)) : quote = '`' := by
  fun_induction quotedRest quote place s with
  | case1 | case3 | case6 | case9 | case11 | case13 | case15 | case18 => cases h
  | case16 hback => exact hback
  | case2 _ _ _ ih | case4 _ ih | case5 _ _ _ _ ih | case7 _ ih | case8 _ _ _ _ _ _ _ ih | case10 _ _ _ _ ih
  | case12 _ ih | case14 _ _ _ _ _ _ _ ih | case17 _ _ _ _ _ _ _ _ _ _ ih | case19 _ _ _ _ _ _ _ _ _ _ ih => exact ih h

theorem readSign_kind (text : List Char) :
    (Token.readSign text).kind = .sign ∨ (Token.readSign text).kind = .invalid := by
  unfold Token.readSign
  split
  · split
    · split <;> exact .inl rfl
    · exact .inl rfl
  · exact .inl rfl
  · exact .inr rfl

theorem readSign_prefix {text : List Char} {s : String} (h : Token.readSign text = ⟨.sign, s⟩) : s.toList <+: text := by
  unfold Token.readSign at h
  have hfound {t : String} (ht : signs.find? (fun s => s.toList.isPrefixOf text) = some t) : t.toList <+: text :=
    List.isPrefixOf_iff_prefix.mp (by simpa using List.find?_some ht)
  have hshort (ht : "?.".toList <+: text) : "?".toList <+: text := List.IsPrefix.trans ⟨['.'], rfl⟩ ht
  split at h
  · next hfind =>
    split at h
    · split at h <;> cases h
      · exact hshort (hfound hfind)
      · exact hfound hfind
    · cases h
      exact hfound hfind
  · next hfind =>
    cases h
    exact hfound hfind
  · cases h

/-- What a token may be: one that is neither a sign nor a string, a sign, or a string that is read to its quote. -/
theorem read_cases (rest : List Char) :
    ((Token.read rest).kind ≠ .sign ∧ (Token.read rest).kind ≠ .string) ∨ Token.read rest = Token.readSign rest ∨
      ∃ quote more stop after, rest = quote :: more ∧ (quote = '"' ∨ quote = '\'') ∧
        quotedRest quote .plain more = some (stop, after) ∧
        Token.read rest = ⟨.string, String.ofList (rest.take (more.length + 1 - after.length))⟩ := by
  cases rest with
  | nil => exact .inl ⟨nofun, nofun⟩
  | cons c more =>
    generalize hread : Token.read (c :: more) = token
    rw [Token.read] at hread
    split at hread
    · exact .inl (by simp [← hread])
    split at hread
    · exact .inl (by simp [← hread])
    split at hread
    · exact .inl (by simp [← hread])
    split at hread
    · next hquote =>
      split at hread
      · next stop after hstopped => exact .inr (.inr ⟨c, more, stop, after, rfl, hquote, hstopped, hread.symm⟩)
      · exact .inl (by simp [← hread])
    split at hread
    · split at hread <;> exact .inl (by simp [← hread])
    · exact .inr (.inl hread.symm)

theorem read_sign {rest : List Char} {s : String} (h : Token.read rest = ⟨.sign, s⟩) : s.toList <+: rest := by
  rcases read_cases rest with ⟨hsign, -⟩ | hread | ⟨_, _, _, _, -, -, -, hread⟩
  · exact absurd (congrArg Token.kind h) hsign
  · exact readSign_prefix (hread.symm.trans h)
  · cases h.symm.trans hread

theorem read_string {rest : List Char} (h : (Token.read rest).kind = .string) : ∃ quote body after,
    (quote = '"' ∨ quote = '\'') ∧ rest = quote :: body ++ quote :: after ∧ Closes quote body ∧
      (Token.read rest).text.length = (quote :: body ++ [quote]).length := by
  rcases read_cases rest with ⟨-, hstring⟩ | hread | ⟨quote, more, stop, after, rfl, hquote, hstopped, hread⟩
  · exact absurd h hstring
  · rw [hread] at h
    rcases readSign_kind rest with hsign | hinvalid
    · cases h.symm.trans hsign
    · cases h.symm.trans hinvalid
  · obtain rfl : stop = .quote := by
      cases stop with
      | quote => rfl
      | substitution =>
        obtain rfl := backquote_of_substitution hstopped
        exact absurd hquote (by decide)
    obtain ⟨body, rfl, hcloses⟩ := quotedRest_quote hstopped
    refine ⟨quote, body, after, hquote, rfl, hcloses, ?_⟩
    rw [hread]
    simp only [String.length_ofList, List.length_take, List.length_cons, List.length_append, List.length_nil]
    omega

theorem nameChars_prefix (braced : Bool) (text : List Char) : nameChars braced text <+: text := by
  fun_induction nameChars braced text with
  | case1 | case6 => exact List.nil_prefix
  | case2 _ _ ih => exact (List.prefix_append_right_inj ['\\', 'u', '{']).mpr ih
  | case3 _ _ _ ih => exact (List.prefix_append_right_inj ['\\', 'u']).mpr ih
  | case4 _ _ _ _ ih => exact (List.prefix_cons_inj _).mpr ih
  | case5 _ _ _ _ _ _ _ ih => exact (List.prefix_cons_inj _).mpr ih

theorem nameChars_ne_nil {c : Char} {rest : List Char} (h : isNameStart c ∨ c = '\\' ∧ rest.head? = some 'u') :
    nameChars false (c :: rest) ≠ [] := by
  unfold nameChars
  split
  · next heq => cases heq
  · nofun
  · nofun
  · next c rest _ hescape heq =>
    cases heq
    rcases h with hstart | ⟨hmark, hhead⟩
    · simp [isNamePart, hstart]
    · obtain ⟨tail, htail⟩ := List.head?_eq_some_iff.mp hhead
      exact absurd htail (hescape tail hmark)

theorem read_name {rest : List Char} (h : (Token.read rest).kind = .word ∨ (Token.read rest).kind = .privateName) :
    ∃ piece after, piece ≠ [] ∧ rest = piece ++ after ∧ (Token.read rest).text.length = piece.length := by
  cases rest with
  | nil => rcases h with h | h <;> cases h
  | cons c more =>
    generalize hread : Token.read (c :: more) = token at *
    rw [Token.read] at hread
    split at hread
    · next hname =>
      obtain ⟨after, hafter⟩ := nameChars_prefix false (c :: more)
      exact ⟨_, after, nameChars_ne_nil hname, hafter.symm, by rw [← hread]; exact String.length_ofList⟩
    split at hread
    · simp [← hread] at h
    split at hread
    · simp [← hread] at h
    split at hread
    · split at hread <;> simp [← hread] at h
    split at hread
    · next hprivate =>
      split at hread
      · simp [← hread] at h
      · obtain ⟨after, hafter⟩ := nameChars_prefix false more
        refine ⟨'#' :: nameChars false more, after, List.cons_ne_nil _ _, ?_, ?_⟩
        · rw [List.cons_append, hafter, hprivate]
        · rw [← hread]
          exact String.length_ofList
    · rw [← hread] at h
      rcases readSign_kind (c :: more) with hsign | hinvalid
      · simp [hsign] at h
      · simp [hinvalid] at h

theorem read_number {rest : List Char} (h : (Token.read rest).kind = .number) : ∃ literal after,
    rest = literal ++ after ∧ IsNumber literal ∧ (Token.read rest).text.length = literal.length := by
  cases rest with
  | nil => cases h
  | cons c more =>
    generalize hread : Token.read (c :: more) = token at *
    rw [Token.read] at hread
    split at hread
    · rw [← hread] at h
      cases h
    split at hread
    · next hdigit =>
      obtain ⟨⟨after, hafter⟩, hnumber⟩ : numeral (c :: more) <+: c :: more ∧ _ := numeral_spec hdigit
      exact ⟨_, after, hafter.symm, hnumber, by rw [← hread]; exact String.length_ofList⟩
    split at hread
    · next hpoint =>
      obtain ⟨after, hafter⟩ := (fractionPart_spec more).1
      refine ⟨_, after, ?_, pointed_spec hpoint.2, by rw [← hread]; exact String.length_ofList⟩
      rw [hpoint.1, List.cons_append, hafter]
    split at hread
    · split at hread <;>
      · rw [← hread] at h
        cases h
    split at hread
    · split at hread <;>
      · rw [← hread] at h
        cases h
    · rw [← hread] at h
      rcases readSign_kind (c :: more) with hsign | hinvalid
      · cases h.symm.trans hsign
      · cases h.symm.trans hinvalid

end ComponentDoc.Script
