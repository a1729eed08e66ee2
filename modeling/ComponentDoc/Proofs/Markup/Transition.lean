import ComponentDoc.Markup.Expression

/-!
The steps of the scan of an expression. The innermost frame and at most two characters decide what comes next.
Main statement: a scan is a run of these steps.
-/

namespace ComponentDoc.Markup

/-- With the frame `f` innermost at offset `pos`, the scan passes over some characters, and other frames stand in
the place of `f`; `next` is the character behind those. -/
inductive Frame.Step (pos : Nat) (next : Option Char) : Frame → List Char → List Frame → Prop
  | stringEscape {quote c : Char} {start : Nat} :
    Step pos next (.quoted quote start) ['\\', c] [.quoted quote start]
  | stringClose {quote : Char} {start : Nat} (hquote : quote ≠ '\\') : Step pos next (.quoted quote start) [quote] []
  | stringPlain {quote c : Char} {start : Nat} (hescape : c ≠ '\\') (hquote : c ≠ quote) (hfeed : c ≠ '\n') :
    Step pos next (.quoted quote start) [c] [.quoted quote start]
  | templateEscape {c : Char} {start : Nat} : Step pos next (.template start) ['\\', c] [.template start]
  | templateClose {start : Nat} : Step pos next (.template start) ['`'] []
  | substitution {start : Nat} :
    Step pos next (.template start) ['$', '{'] [.braces (pos + 1) 1, .template start]
  | templatePlain {c : Char} {start : Nat} (hescape : c ≠ '\\') (hquote : c ≠ '`')
    (hopen : ¬(c = '$' ∧ next = some '{')) : Step pos next (.template start) [c] [.template start]
  | lineEnd : Step pos next .lineComment ['\n'] []
  | linePlain {c : Char} (hfeed : c ≠ '\n') : Step pos next .lineComment [c] [.lineComment]
  | blockEnd : Step pos next .blockComment ['*', '/'] []
  | blockPlain {c : Char} (hend : ¬(c = '*' ∧ next = some '/')) : Step pos next .blockComment [c] [.blockComment]
  | openString {c : Char} {start : Nat} {depth : Int} (hquote : c = '"' ∨ c = '\'') :
    Step pos next (.braces start depth) [c] [.quoted c pos, .braces start depth]
  | openTemplate {start : Nat} {depth : Int} :
    Step pos next (.braces start depth) ['`'] [.template pos, .braces start depth]
  | openBrace {start : Nat} {depth : Int} : Step pos next (.braces start depth) ['{'] [.braces start (depth + 1)]
  | lastBrace {start : Nat} : Step pos next (.braces start 1) ['}'] []
  | closeBrace {start : Nat} {depth : Int} (hdepth : depth ≠ 1) :
    Step pos next (.braces start depth) ['}'] [.braces start (depth - 1)]
  | openLine {start : Nat} {depth : Int} :
    Step pos next (.braces start depth) ['/', '/'] [.lineComment, .braces start depth]
  | openBlock {start : Nat} {depth : Int} :
    Step pos next (.braces start depth) ['/', '*'] [.blockComment, .braces start depth]
  | other {c : Char} {start : Nat} {depth : Int} (hc : c ∉ ['{', '}', '\'', '"', '`'])
    (hcomment : ¬(c = '/' ∧ (next = some '/' ∨ next = some '*'))) :
    Step pos next (.braces start depth) [c] [.braces start depth]

inductive Frame.Stops (pos : Nat) : Frame → List Char → ParseError → Prop
  | stringEnd {quote : Char} {start : Nat} :
    Stops pos (.quoted quote start) ['\\'] (.at .openString start (pos + 2))
  | lineFeed {quote : Char} {start : Nat} {rest : List Char} (hquote : '\n' ≠ quote) :
    Stops pos (.quoted quote start) ('\n' :: rest) (.at .openString start pos)
  | templateEnd {start : Nat} : Stops pos (.template start) ['\\'] (.at .openTemplate start (pos + 1))

inductive ScanRun : List Frame → Nat → List Char → Except ParseError Nat → Prop
  | closed {pos : Nat} {text : List Char} : ScanRun [] pos text (.ok pos)
  | unfinished {f : Frame} {below : List Frame} {pos : Nat} :
    ScanRun (f :: below) pos [] (.error (unfinished pos (f :: below)))
  | stops {f : Frame} {below : List Frame} {pos : Nat} {text : List Char} {e : ParseError}
    (stop : f.Stops pos text e) : ScanRun (f :: below) pos text (.error e)
  | step {f : Frame} {now below : List Frame} {pos : Nat} {used rest : List Char} {r : Except ParseError Nat}
    (head : f.Step pos rest.head? used now) (tail : ScanRun (now ++ below) (pos + used.length) rest r) :
    ScanRun (f :: below) pos (used ++ rest) r

section Equations

variable (pos : Nat) (c : Char) (rest : List Char) (below : List Frame)

theorem scan_quoted (quote : Char) (start : Nat) :
    scan (.quoted quote start :: below) pos (c :: rest) =
      if c = '\\' then
        match rest with
        | [] => .error (.at .openString start (pos + 2))
        | _ :: rest => scan (.quoted quote start :: below) (pos + 2) rest
      else if c = quote then scan below (pos + 1) rest
      else if c = '\n' then .error (.at .openString start pos)
      else scan (.quoted quote start :: below) (pos + 1) rest :=
  (scan.eq_def ..).trans rfl

theorem scan_template (start : Nat) :
    scan (.template start :: below) pos (c :: rest) =
      if c = '\\' then
        match rest with
        | [] => .error (.at .openTemplate start (pos + 1))
        | _ :: rest => scan (.template start :: below) (pos + 2) rest
      else if c = '`' then scan below (pos + 1) rest
      else if c = '$' then
        match rest with
        | '{' :: rest => scan (.braces (pos + 1) 1 :: .template start :: below) (pos + 2) rest
        | rest => scan (.template start :: below) (pos + 1) rest
      else scan (.template start :: below) (pos + 1) rest :=
  (scan.eq_def ..).trans rfl

theorem scan_lineComment :
    scan (.lineComment :: below) pos (c :: rest) =
      if c = '\n' then scan below (pos + 1) rest
      else scan (.lineComment :: below) (pos + 1) rest :=
  (scan.eq_def ..).trans rfl

theorem scan_blockComment :
    scan (.blockComment :: below) pos (c :: rest) =
      if c = '*' then
        match rest with
        | '/' :: rest => scan below (pos + 2) rest
        | rest => scan (.blockComment :: below) (pos + 1) rest
      else scan (.blockComment :: below) (pos + 1) rest :=
  (scan.eq_def ..).trans rfl

theorem scan_braces (start : Nat) (depth : Int) :
    scan (.braces start depth :: below) pos (c :: rest) =
      if c = '"' ∨ c = '\'' then
        scan (.quoted c pos :: .braces start depth :: below) (pos + 1) rest
      else if c = '`' then scan (.template pos :: .braces start depth :: below) (pos + 1) rest
      else if c = '{' then scan (.braces start (depth + 1) :: below) (pos + 1) rest
      else if c = '}' then
        if depth = 1 then
          if below.isEmpty then .ok (pos + 1) else scan below (pos + 1) rest
        else scan (.braces start (depth - 1) :: below) (pos + 1) rest
      else if c = '/' then
        match rest with
        | '/' :: rest => scan (.lineComment :: .braces start depth :: below) (pos + 2) rest
        | '*' :: rest => scan (.blockComment :: .braces start depth :: below) (pos + 2) rest
        | rest => scan (.braces start depth :: below) (pos + 1) rest
      else scan (.braces start depth :: below) (pos + 1) rest :=
  (scan.eq_def ..).trans rfl

end Equations

/-- The outermost frame is a brace. -/
def Grounded : List Frame → Prop
  | [] => False
  | [f] => ∃ start depth, f = .braces start depth
  | _ :: rest => Grounded rest

theorem grounded_braces (start : Nat) (depth : Int) : Grounded [.braces start depth] :=
  ⟨start, depth, rfl⟩

theorem Grounded.cons {fs : List Frame} (f : Frame) (h : Grounded fs) : Grounded (f :: fs) := by
  cases fs with
  | nil => exact h.elim
  | cons g gs => exact h

theorem Grounded.below {f : Frame} {fs : List Frame} (h : Grounded (f :: fs)) (hne : fs ≠ []) : Grounded fs := by
  cases fs with
  | nil => exact absurd rfl hne
  | cons g gs => exact h

theorem Grounded.replace {start other : Nat} {depth depth' : Int} {fs : List Frame}
    (h : Grounded (.braces start depth :: fs)) : Grounded (.braces other depth' :: fs) := by
  cases fs with
  | nil => exact ⟨other, depth', rfl⟩
  | cons g gs => exact h

section Steps

variable {f : Frame} {now below : List Frame} {pos : Nat} {used rest : List Char}

theorem ne_of_head? {d : Char} (h : rest.head? ≠ some d) (more : List Char) : rest ≠ d :: more := by
  rintro rfl
  exact h rfl

theorem Frame.Step.scan_eq (h : f.Step pos rest.head? used now) (hne : now ++ below ≠ []) :
    scan (f :: below) pos (used ++ rest) = scan (now ++ below) (pos + used.length) rest := by
  cases h with
  | stringEscape => simp [scan_quoted]
  | stringClose hquote => simp [scan_quoted, hquote]
  | stringPlain hescape hquote hfeed => simp [scan_quoted, hescape, hquote, hfeed]
  | templateEscape | templateClose | substitution => simp [scan_template]
  | @templatePlain c start hescape hquote hopen =>
    by_cases hdollar : c = '$'
    · have hbrace := ne_of_head? fun hhead => hopen ⟨hdollar, hhead⟩
      subst hdollar
      simp [scan_template]
    · simp [scan_template, hescape, hquote, hdollar]
  | lineEnd => simp [scan_lineComment]
  | linePlain hfeed => simp [scan_lineComment, hfeed]
  | blockEnd => simp [scan_blockComment]
  | @blockPlain c hend =>
    by_cases hstar : c = '*'
    · have hslash := ne_of_head? fun hhead => hend ⟨hstar, hhead⟩
      subst hstar
      simp [scan_blockComment]
    · simp [scan_blockComment, hstar]
  | openString hquote => simp [scan_braces, hquote]
  | openTemplate | openBrace | openLine | openBlock => simp [scan_braces]
  | lastBrace =>
    have hbelow : below.isEmpty = false := by simpa using hne
    simp [scan_braces, hbelow]
  | closeBrace hdepth => simp [scan_braces, hdepth]
  | @other c start depth hc hcomment =>
    simp only [List.mem_cons, List.not_mem_nil, or_false, not_or] at hc
    by_cases hslash : c = '/'
    · have hline := ne_of_head? fun hhead => hcomment ⟨hslash, .inl hhead⟩
      have hblock := ne_of_head? fun hhead => hcomment ⟨hslash, .inr hhead⟩
      subst hslash
      simp [scan_braces]
    · simp [scan_braces, hc, hslash]

theorem Frame.Step.scan_last (h : f.Step pos rest.head? used []) (hg : Grounded [f]) :
    used = ['}'] ∧ scan [f] pos (used ++ rest) = .ok (pos + used.length) := by
  obtain ⟨start, depth, rfl⟩ := hg
  cases h
  exact ⟨rfl, by simp [scan_braces]⟩

theorem Frame.Step.grounded {next : Option Char} (h : f.Step pos next used now) (hg : Grounded (f :: below))
    (hne : now ++ below ≠ []) : Grounded (now ++ below) := by
  cases h with
  | stringEscape | stringPlain | templateEscape | templatePlain | linePlain | blockPlain | other => exact hg
  | stringClose | templateClose | lineEnd | blockEnd | lastBrace => exact hg.below hne
  | substitution | openString | openTemplate | openLine | openBlock => exact hg.cons _
  | openBrace | closeBrace => exact hg.replace

theorem Frame.Stops.scan_eq {text : List Char} {e : ParseError} (h : f.Stops pos text e) :
    scan (f :: below) pos text = .error e := by
  cases h with
  | stringEnd => simp [scan_quoted]
  | lineFeed hquote => simp [scan_quoted, hquote]
  | templateEnd => simp [scan_template]

end Steps

section Cases

def Frame.Goes (f : Frame) (pos : Nat) (text : List Char) : Prop :=
  (∃ e, f.Stops pos text e) ∨ ∃ used rest now, text = used ++ rest ∧ f.Step pos rest.head? used now

variable (pos : Nat) (c : Char) (rest : List Char) (start : Nat)

theorem goes_quoted (quote : Char) : (Frame.quoted quote start).Goes pos (c :: rest) := by
  by_cases hescape : c = '\\'
  · subst hescape
    cases rest with
    | nil => exact .inl ⟨_, .stringEnd⟩
    | cons d rest => exact .inr ⟨['\\', d], rest, _, rfl, .stringEscape⟩
  · by_cases hquote : c = quote
    · subst hquote
      exact .inr ⟨[c], rest, _, rfl, .stringClose hescape⟩
    · by_cases hfeed : c = '\n'
      · subst hfeed
        exact .inl ⟨_, .lineFeed hquote⟩
      · exact .inr ⟨[c], rest, _, rfl, .stringPlain hescape hquote hfeed⟩

theorem goes_template : (Frame.template start).Goes pos (c :: rest) := by
  by_cases hescape : c = '\\'
  · subst hescape
    cases rest with
    | nil => exact .inl ⟨_, .templateEnd⟩
    | cons d rest => exact .inr ⟨['\\', d], rest, _, rfl, .templateEscape⟩
  · by_cases hquote : c = '`'
    · subst hquote
      exact .inr ⟨['`'], rest, _, rfl, .templateClose⟩
    · by_cases hopen : c = '$' ∧ rest.head? = some '{'
      · obtain ⟨rfl, hbrace⟩ := hopen
        obtain ⟨rest, rfl⟩ := List.head?_eq_some_iff.mp hbrace
        exact .inr ⟨['$', '{'], rest, _, rfl, .substitution⟩
      · exact .inr ⟨[c], rest, _, rfl, .templatePlain hescape hquote hopen⟩

theorem goes_lineComment : Frame.lineComment.Goes pos (c :: rest) := by
  by_cases hfeed : c = '\n'
  · subst hfeed
    exact .inr ⟨['\n'], rest, _, rfl, .lineEnd⟩
  · exact .inr ⟨[c], rest, _, rfl, .linePlain hfeed⟩

theorem goes_blockComment : Frame.blockComment.Goes pos (c :: rest) := by
  by_cases hend : c = '*' ∧ rest.head? = some '/'
  · obtain ⟨rfl, hslash⟩ := hend
    obtain ⟨rest, rfl⟩ := List.head?_eq_some_iff.mp hslash
    exact .inr ⟨['*', '/'], rest, _, rfl, .blockEnd⟩
  · exact .inr ⟨[c], rest, _, rfl, .blockPlain hend⟩

theorem goes_braces (depth : Int) : (Frame.braces start depth).Goes pos (c :: rest) := by
  by_cases hc : c ∈ ['{', '}', '\'', '"', '`']
  · simp only [List.mem_cons, List.not_mem_nil, or_false] at hc
    rcases hc with rfl | rfl | rfl | rfl | rfl
    · exact .inr ⟨['{'], rest, _, rfl, .openBrace⟩
    · by_cases hdepth : depth = 1
      · subst hdepth
        exact .inr ⟨['}'], rest, _, rfl, .lastBrace⟩
      · exact .inr ⟨['}'], rest, _, rfl, .closeBrace hdepth⟩
    · exact .inr ⟨['\''], rest, _, rfl, .openString (.inr rfl)⟩
    · exact .inr ⟨['"'], rest, _, rfl, .openString (.inl rfl)⟩
    · exact .inr ⟨['`'], rest, _, rfl, .openTemplate⟩
  · by_cases hcomment : c = '/' ∧ (rest.head? = some '/' ∨ rest.head? = some '*')
    · obtain ⟨rfl, hline | hblock⟩ := hcomment
      · obtain ⟨rest, rfl⟩ := List.head?_eq_some_iff.mp hline
        exact .inr ⟨['/', '/'], rest, _, rfl, .openLine⟩
      · obtain ⟨rest, rfl⟩ := List.head?_eq_some_iff.mp hblock
        exact .inr ⟨['/', '*'], rest, _, rfl, .openBlock⟩
    · exact .inr ⟨[c], rest, _, rfl, .other hc hcomment⟩

theorem Frame.goes (f : Frame) : f.Goes pos (c :: rest) := by
  cases f with
  | braces start depth => exact goes_braces pos c rest start depth
  | template start => exact goes_template pos c rest start
  | quoted quote start => exact goes_quoted pos c rest start quote
  | lineComment => exact goes_lineComment pos c rest
  | blockComment => exact goes_blockComment pos c rest

end Cases

theorem Frame.Step.length_pos {f : Frame} {now : List Frame} {pos : Nat} {next : Option Char} {used : List Char}
    (h : f.Step pos next used now) : 0 < used.length := by
  cases h <;> exact Nat.succ_pos _

theorem scanRun_scan {fs : List Frame} {pos : Nat} {text : List Char} (hg : Grounded fs) :
    ScanRun fs pos text (scan fs pos text) := by
  induction hlength : text.length using Nat.strongRecOn generalizing fs pos text with
  | ind length ih =>
    cases fs with
    | nil => exact hg.elim
    | cons f below =>
      cases text with
      | nil =>
        rw [scan]
        exact .unfinished
      | cons c rest =>
        rcases f.goes pos c rest with ⟨e, hstop⟩ | ⟨used, rest, now, htext, hstep⟩
        · rw [hstop.scan_eq]
          exact .stops hstop
        · rw [htext] at hlength ⊢
          by_cases hne : now ++ below = []
          · obtain ⟨rfl, rfl⟩ := List.append_eq_nil_iff.mp hne
            rw [(hstep.scan_last hg).2]
            exact .step hstep .closed
          · rw [hstep.scan_eq hne]
            refine .step hstep (ih rest.length ?_ (hstep.grounded hg hne) rfl)
            have hused := hstep.length_pos
            rw [List.length_append] at hlength
            omega

end ComponentDoc.Markup
