import ComponentDoc.Text.Blank
import ComponentDoc.Text.Word
import Mathlib.Data.List.Basic
import Mathlib.Data.List.TakeWhile

namespace ComponentDoc.Text

def blankCodes : List Nat :=
  [9, 10, 11, 12, 13, 28, 29, 30, 31, 32, 0x85, 0xA0, 0x1680, 0x2000, 0x2001, 0x2002, 0x2003, 0x2004,
   0x2005, 0x2006, 0x2007, 0x2008, 0x2009, 0x200A, 0x2028, 0x2029, 0x202F, 0x205F, 0x3000]

theorem toNat_mem_blankCodes {c : Char} (h : isBlank c = true) : c.toNat ∈ blankCodes := by
  unfold isBlank at h
  dsimp only at h
  simp only [blankCodes, List.mem_cons, List.not_mem_nil, or_false]
  split at h <;> simp only [Bool.or_eq_true, Bool.and_eq_true, decide_eq_true_eq, beq_iff_eq] at h <;>
    omega

theorem isBlank_eq_false_of_isWord {c : Char} (h : isWord c = true) : isBlank c = false := by
  have hcodes : ∀ n ∈ blankCodes, isWord (Char.ofNat n) = false := by decide +kernel
  rw [← Bool.not_eq_true]
  intro hb
  have hw := hcodes c.toNat (toNat_mem_blankCodes hb)
  rw [Char.ofNat_toNat, h] at hw
  exact absurd hw (by decide)

theorem isWord_of_isAsciiLetter {c : Char} (h : isAsciiLetter c = true) : isWord c = true := by
  have hc : c.toNat < 0x80 := by
    simp only [isAsciiLetter, Bool.or_eq_true, Bool.and_eq_true, decide_eq_true_eq, Char.le_def,
      UInt32.le_iff_toNat_le, Char.toNat_val] at h
    rcases h with ⟨-, h⟩ | ⟨-, h⟩ <;> exact h.trans_lt (by decide)
  simp [isWord, hc, h]

theorem isBlank_of_isLineEnd {c : Char} (h : isLineEnd c = true) : isBlank c = true := by
  unfold isLineEnd at h
  unfold isBlank
  dsimp only at h ⊢
  simp only [Bool.or_eq_true, Bool.and_eq_true, decide_eq_true_eq, beq_iff_eq] at h
  split <;> simp only [Bool.or_eq_true, Bool.and_eq_true, decide_eq_true_eq, beq_iff_eq] <;> omega

theorem trimStart_append {blanks rest : List Char} (hb : allBlank blanks = true)
    (hr : ∀ c ∈ rest.head?, isBlank c = false) : trimStart (blanks ++ rest) = rest := by
  rw [trimStart, List.dropWhile_append_of_pos (List.all_eq_true.mp hb)]
  cases rest with
  | nil => rfl
  | cons c cs => simpa using hr c rfl

theorem trimEnd_append {s blanks : List Char} (hs : ∀ c ∈ s.getLast?, isBlank c = false)
    (hb : allBlank blanks = true) : trimEnd (s ++ blanks) = s := by
  have hrev : ∀ c ∈ blanks.reverse, isBlank c = true := by
    intro c hc
    exact List.all_eq_true.mp hb c (List.mem_reverse.mp hc)
  rw [trimEnd, dropEndWhile, List.reverse_append, List.dropWhile_append_of_pos hrev]
  cases hl : s.reverse with
  | nil => simpa using hl
  | cons c cs =>
    have hc : isBlank c = false := by
      apply hs
      rw [← List.head?_reverse, hl]
      rfl
    rw [List.dropWhile_cons_of_neg (by simp [hc]), ← hl, List.reverse_reverse]

theorem trimEnd_append_right {s : List Char} (hs : ∃ c ∈ s.getLast?, isBlank c = false)
    (t : List Char) : trimEnd (s ++ t) = s ++ trimEnd t := by
  obtain ⟨c, hc, hb⟩ := hs
  obtain ⟨front, rfl⟩ := List.getLast?_eq_some_iff.mp hc
  simp only [trimEnd, dropEndWhile, List.reverse_append, List.reverse_singleton, List.singleton_append,
    List.dropWhile_append]
  split
  · next he =>
    rw [List.isEmpty_iff.mp he, List.dropWhile_cons_of_neg (by simp [hb])]
    simp
  · simp

theorem exists_trimEnd_append (s : List Char) :
    ∃ blanks, allBlank blanks = true ∧ s = trimEnd s ++ blanks := by
  refine ⟨(s.reverse.takeWhile isBlank).reverse, ?_, ?_⟩
  · rw [allBlank, List.all_reverse]
    exact List.all_takeWhile
  · rw [trimEnd, dropEndWhile, ← List.reverse_append, List.takeWhile_append_dropWhile,
      List.reverse_reverse]

theorem trim_append_blanks {s blanks : List Char} (hs : ∀ c ∈ s, isBlank c = false)
    (hb : allBlank blanks = true) : trim (s ++ blanks) = s := by
  cases s with
  | nil =>
    have he : trimStart blanks = [] := by
      rw [← List.append_nil blanks]
      exact trimStart_append hb (by simp)
    rw [List.nil_append, trim, he]
    rfl
  | cons c cs =>
    rw [trim, List.cons_append, trimStart_cons (hs c List.mem_cons_self), ← List.cons_append]
    exact trimEnd_append (fun d hd => hs d (List.mem_of_getLast? hd)) hb

theorem trim_of_no_blank {s : List Char} (hs : ∀ c ∈ s, isBlank c = false) : trim s = s := by
  rw [← List.append_nil s, trim_append_blanks hs rfl, List.append_nil]

theorem trim_eq_self_iff {s : List Char} :
    trim s = s ↔ (∀ c ∈ s.head?, isBlank c = false) ∧ ∀ c ∈ s.getLast?, isBlank c = false := by
  constructor
  · intro h
    obtain ⟨blanks, -, htrimmed⟩ := exists_trimEnd_append (trimStart s)
    have hlength := (List.dropWhile_sublist isBlank (l := s)).length_le
    have hstart : trimStart s = s := by
      have he : trimStart s = s ++ blanks := by rwa [← trim, h] at htrimmed
      rw [← trimStart, he, List.length_append] at hlength
      rw [he, List.length_eq_zero_iff.mp (by omega : blanks.length = 0), List.append_nil]
    constructor
    · intro c hc
      have hhead := List.head?_dropWhile_not isBlank s
      rw [← trimStart, hstart, Option.mem_def.mp hc] at hhead
      simpa using hhead
    · intro c hc
      have hhead := List.head?_dropWhile_not isBlank s.reverse
      have hreverse : s.reverse.dropWhile isBlank = s.reverse := by
        rw [← List.reverse_inj, List.reverse_reverse]
        rwa [trim, hstart] at h
      rw [hreverse, List.head?_reverse, Option.mem_def.mp hc] at hhead
      simpa using hhead
  · rintro ⟨hhead, hlast⟩
    have hstart : trimStart ([] ++ s) = s := trimStart_append rfl hhead
    have hend : trimEnd (s ++ []) = s := trimEnd_append hlast rfl
    rw [List.nil_append] at hstart
    rw [List.append_nil] at hend
    rw [trim, hstart, hend]

theorem trim_append_of_blanks {before after : List Char} (hb : allBlank before = true)
    (ha : allBlank after = true) (s : List Char) : trim (before ++ s ++ after) = trim s := by
  have hbefore : trimStart (before ++ (s ++ after)) = trimStart (s ++ after) :=
    List.dropWhile_append_of_pos (List.all_eq_true.mp hb)
  rw [List.append_assoc, trim, hbefore, trimStart, List.dropWhile_append]
  have hrev : ∀ c ∈ after.reverse, isBlank c = true :=
    fun c hc => List.all_eq_true.mp ha c (List.mem_reverse.mp hc)
  split
  · next hs =>
    have hafter : after.dropWhile isBlank = [] := List.dropWhile_eq_nil_iff.mpr (List.all_eq_true.mp ha)
    rw [hafter, trim, trimStart, List.isEmpty_iff.mp hs]
  · rw [trimEnd, dropEndWhile, List.reverse_append, List.dropWhile_append_of_pos hrev]
    rfl

theorem trim_append_of_blank_left {blanks : List Char} (h : allBlank blanks = true) (s : List Char) :
    trim (blanks ++ s) = trim s := by
  have htrim := trim_append_of_blanks h (rfl : allBlank [] = true) s
  rwa [List.append_nil] at htrim

theorem trim_append_of_blank_right {blanks : List Char} (h : allBlank blanks = true) (s : List Char) :
    trim (s ++ blanks) = trim s :=
  trim_append_of_blanks (rfl : allBlank [] = true) h s

theorem trim_cons_append_of_trimmed {c : Char} (hc : isBlank c = false) (front : List Char) {s : List Char}
    (hne : s ≠ []) (hs : trim s = s) : trim (c :: (front ++ s)) = c :: (front ++ s) := by
  rw [trim_eq_self_iff, ← List.cons_append, List.getLast?_append_of_ne_nil _ hne]
  refine ⟨?_, (trim_eq_self_iff.mp hs).2⟩
  rintro d ⟨⟩
  exact hc

theorem exists_trim_append (s : List Char) :
    ∃ before after, allBlank before = true ∧ allBlank after = true ∧ s = before ++ trim s ++ after := by
  obtain ⟨after, hafter, he⟩ := exists_trimEnd_append (trimStart s)
  refine ⟨s.takeWhile isBlank, after, List.all_takeWhile, hafter, ?_⟩
  rw [trim, List.append_assoc, ← he]
  exact List.takeWhile_append_dropWhile.symm

theorem isBlank_of_mem_head?_append {blanks rest : List Char} (hblanks : allBlank blanks = true)
    (hne : blanks ≠ []) : ∀ c ∈ (blanks ++ rest).head?, isBlank c = true := by
  obtain ⟨d, blanks, rfl⟩ := List.exists_cons_of_ne_nil hne
  rintro c ⟨⟩
  exact List.all_eq_true.mp hblanks d List.mem_cons_self

theorem trim_trim (s : List Char) : trim (trim s) = trim s := by
  obtain ⟨before, after, hbefore, hafter, he⟩ := exists_trim_append s
  rw [← trim_append_of_blanks hbefore hafter (trim s), ← he]

theorem trim_trimEnd (s : List Char) : trim (trimEnd s) = trim s := by
  obtain ⟨blanks, hblanks, hs⟩ := exists_trimEnd_append s
  calc trim (trimEnd s) = trim (trimEnd s ++ blanks) := (trim_append_of_blank_right hblanks _).symm
    _ = trim s := by rw [← hs]

theorem trim_eq_nil_of_blank {s : List Char} (hs : allBlank s = true) : trim s = [] := by
  have h := trim_append_of_blank_left hs []
  rwa [List.append_nil, trim_nil] at h

end ComponentDoc.Text
