import SearchEngine.Archive.ServiceCommandLine

/-!
# What quoting an argument does

`quoteArgument` is undone by the rules of `CommandLineToArgvW`: the backslashes before a quote
are doubled and the others stay.
-/

namespace SearchEngine.Archive

open SearchEngine.Files

/-! ## Quoting -/

theorem readArguments_slashes (quoted : Bool) (slashes count : Nat) (kept rest : Path) :
    readArguments quoted slashes (some kept) (List.replicate count '\\' ++ rest) =
      readArguments quoted (slashes + count) (some kept) rest := by
  induction count generalizing slashes with
  | zero => rfl
  | succ count ih =>
      rw [List.replicate_succ, List.cons_append, readArguments, if_pos rfl, Option.getD_some, ih,
        Nat.add_right_comm, Nat.add_assoc]

/-- The quoted text is read back, and the quote after it closes it. -/
theorem readArguments_quoteBody (value : Path) : ∀ (slashes : Nat) (kept rest : Path),
    readArguments true 0 (some kept) (quoteBody slashes value ++ '"' :: rest) =
      readArguments false 0 (some (kept ++ List.replicate slashes '\\' ++ value)) rest := by
  induction value with
  | nil =>
      intro slashes kept rest
      rw [quoteBody, readArguments_slashes, readArguments, if_neg (by decide), if_pos rfl, Nat.zero_add,
        Nat.mul_mod_left, if_pos rfl, Nat.mul_div_cancel _ (by decide), List.append_nil, Option.getD_some]
      rfl
  | cons ch value ih =>
      intro slashes kept rest
      rw [quoteBody]
      split
      · rename_i slash
        rw [ih, slash, List.replicate_succ', List.append_assoc, List.append_assoc, List.append_assoc]
        rfl
      split
      · rename_i slash quote
        rw [List.append_assoc, readArguments_slashes, List.cons_append, readArguments, if_neg (by decide), if_pos rfl,
          if_neg (by omega), ih]
        have half : (0 + (slashes * 2 + 1)) / 2 = slashes := by omega
        rw [half, quote]
        simp
      · rename_i slash quote
        rw [List.append_assoc, readArguments_slashes, List.cons_append, readArguments, if_neg slash, if_neg quote,
          if_neg (by simp), ih]
        simp

theorem readArguments_quoteArgument (value rest : Path) :
    readArguments false 0 none (quoteArgument value ++ ' ' :: rest) = value :: readArguments false 0 none rest := by
  rw [quoteArgument, List.cons_append, readArguments, if_neg (by decide), if_pos rfl, if_pos rfl, List.append_assoc]
  change readArguments true 0 (some []) _ = _
  rw [List.singleton_append, readArguments_quoteBody, readArguments, if_neg (by decide), if_neg (by decide),
    if_pos (by decide)]
  simp

theorem readArguments_quoteArgument_last (value : Path) :
    readArguments false 0 none (quoteArgument value) = [value] := by
  rw [quoteArgument, readArguments, if_neg (by decide), if_pos rfl, if_pos rfl]
  change readArguments true 0 (some []) _ = _
  rw [readArguments_quoteBody, readArguments]
  simp

theorem cText_append {text : Path} (noNul : '\x00' ∉ text) (rest : Path) : cText (text ++ rest) = text ++ cText rest := by
  rw [cText, List.takeWhile_append_of_pos]
  · rfl
  · intro c member
    have different : c ≠ '\x00' := fun same => noNul (same ▸ member)
    simpa using different

theorem noNul_replicate (count : Nat) : '\x00' ∉ List.replicate count '\\' := by
  intro member
  exact absurd (List.eq_of_mem_replicate member) (by decide)

/-- A terminator inside the quotes ends the arguments with that one. -/
theorem readArguments_cText (rest : Path) : ∀ (value : Path), '\x00' ∈ value → ∀ (slashes : Nat) (kept : Path),
    ∃ argument, readArguments true 0 (some kept) (cText (quoteBody slashes value ++ rest)) = [argument] := by
  intro value
  induction value with
  | nil => exact fun terminated => absurd terminated List.not_mem_nil
  | cons ch value ih =>
      intro terminated slashes kept
      rw [quoteBody]
      split
      · rename_i slash
        rcases List.mem_cons.mp terminated with here | later
        · rw [slash] at here
          exact absurd here (by decide)
        · exact ih later (slashes + 1) kept
      split
      · rename_i slash quote
        rcases List.mem_cons.mp terminated with here | later
        · rw [quote] at here
          exact absurd here (by decide)
        · obtain ⟨argument, read⟩ := ih later 0 (kept ++ List.replicate slashes '\\' ++ ['"'])
          refine ⟨argument, ?_⟩
          have half : (0 + (slashes * 2 + 1)) / 2 = slashes := by omega
          rw [List.append_assoc, cText_append (noNul_replicate _), readArguments_slashes, List.cons_append, cText,
            List.takeWhile_cons_of_pos (by decide), readArguments, if_neg (by decide), if_pos rfl, if_neg (by omega),
            half]
          exact read
      · rename_i slash quote
        rw [List.append_assoc, cText_append (noNul_replicate _), readArguments_slashes, List.cons_append, cText]
        by_cases here : ch = '\x00'
        · rw [List.takeWhile_cons_of_neg (by simp [here])]
          exact ⟨_, rfl⟩
        · rcases List.mem_cons.mp terminated with there | later
          · exact absurd there.symm here
          · obtain ⟨argument, read⟩ := ih later 0 (kept ++ List.replicate (0 + slashes) '\\' ++ [ch])
            refine ⟨argument, ?_⟩
            rw [List.takeWhile_cons_of_pos (by simpa using here), readArguments, if_neg slash, if_neg quote,
              if_neg (by simp)]
            exact read

/-! ## What quoting does to the text -/

/-- The backslashes at the end of a text. -/
def trailingSlashes (text : Path) : Path := text.reverse.takeWhile (· = '\\')

/-- Backslashes at the end are written twice. -/
def doubledEnd (text : Path) : Path := text ++ trailingSlashes text

theorem trailingSlashes_cons {front rest : Path} {ch : Char} (other : ch ≠ '\\') :
    trailingSlashes (front ++ ch :: rest) = trailingSlashes rest := by
  unfold trailingSlashes
  rw [List.reverse_append, List.reverse_cons, List.append_assoc, List.takeWhile_append]
  split
  · rw [List.singleton_append, List.takeWhile_cons_of_neg (by simpa using other), List.append_nil]
    rename_i whole
    exact ((List.takeWhile_prefix _).eq_of_length whole).symm
  · rfl

theorem trailingSlashes_replicate (count : Nat) :
    trailingSlashes (List.replicate count '\\') = List.replicate count '\\' := by
  unfold trailingSlashes
  rw [List.reverse_replicate, List.takeWhile_eq_self_iff]
  intro c member
  simpa using List.eq_of_mem_replicate member

theorem trailingSlashes_eq_nil_iff {text : Path} : trailingSlashes text = [] ↔ text.getLast? ≠ some '\\' := by
  unfold trailingSlashes
  rw [← List.head?_reverse]
  cases text.reverse with
  | nil => simp
  | cons last front => simp [List.takeWhile_cons]

/-- Without quotes only the end of the text changes. -/
theorem quoteBody_plain (value : Path) : '"' ∉ value → ∀ slashes : Nat,
    quoteBody slashes value = doubledEnd (List.replicate slashes '\\' ++ value) := by
  induction value with
  | nil =>
      intro _ slashes
      rw [quoteBody, doubledEnd, List.append_nil, trailingSlashes_replicate, List.replicate_append_replicate,
        Nat.mul_two]
  | cons ch value ih =>
      intro plain slashes
      rw [List.mem_cons, not_or] at plain
      rw [quoteBody]
      split
      · rename_i slash
        rw [ih plain.2, slash, List.replicate_succ', List.append_assoc]
        rfl
      · rename_i slash
        rw [if_neg (Ne.symm plain.1), ih plain.2, doubledEnd, doubledEnd, trailingSlashes_cons slash]
        simp

/-- The text of a word before a space: the backslashes at its end stay single. -/
def quoteWord (slashes : Nat) : Path → Path
  | [] => List.replicate slashes '\\'
  | ch :: rest =>
      if ch = '\\' then quoteWord (slashes + 1) rest
      else if ch = '"' then List.replicate (slashes * 2 + 1) '\\' ++ '"' :: quoteWord 0 rest
      else List.replicate slashes '\\' ++ ch :: quoteWord 0 rest

theorem quoteBody_append_space (word : Path) : ∀ (slashes : Nat) (rest : Path),
    quoteBody slashes (word ++ ' ' :: rest) = quoteWord slashes word ++ ' ' :: quoteBody 0 rest := by
  induction word with
  | nil =>
      intro slashes rest
      rw [List.nil_append, quoteBody, if_neg (by decide), if_neg (by decide), quoteWord]
  | cons ch word ih =>
      intro slashes rest
      rw [List.cons_append, quoteBody, quoteWord]
      split
      · exact ih (slashes + 1) rest
      split
      · rw [ih 0 rest, List.append_assoc, List.cons_append]
      · rw [ih 0 rest, List.append_assoc, List.cons_append]

theorem quoteWord_plain (word : Path) : '"' ∉ word → ∀ slashes : Nat,
    quoteWord slashes word = List.replicate slashes '\\' ++ word := by
  induction word with
  | nil => exact fun _ slashes => (List.append_nil _).symm
  | cons ch word ih =>
      intro plain slashes
      rw [List.mem_cons, not_or] at plain
      rw [quoteWord]
      split
      · rename_i slash
        rw [ih plain.2, slash, List.replicate_succ', List.append_assoc]
        rfl
      · rw [if_neg (Ne.symm plain.1), ih plain.2]
        rfl

theorem quote_mem_quoteWord (word : Path) : '"' ∈ word → ∀ slashes : Nat, '"' ∈ quoteWord slashes word := by
  induction word with
  | nil => exact fun member => absurd member List.not_mem_nil
  | cons ch word ih =>
      intro member slashes
      rw [quoteWord]
      split
      · rename_i slash
        rcases List.mem_cons.mp member with here | later
        · rw [slash] at here
          exact absurd here (by decide)
        · exact ih later _
      split
      · simp
      · rename_i slash quote
        rcases List.mem_cons.mp member with here | later
        · exact absurd here.symm quote
        · have inside := ih later 0
          simp [inside]

/-- A word that quoting turns into a text without quotes is that text. -/
theorem quoteWord_eq_iff {word text : Path} (plain : '"' ∉ text) : quoteWord 0 word = text ↔ word = text := by
  by_cases quote : '"' ∈ word
  · have inside := quote_mem_quoteWord word quote 0
    constructor
    · exact fun same => absurd (same ▸ inside) plain
    · exact fun same => absurd (same ▸ quote) plain
  · rw [quoteWord_plain word quote 0]
    rfl

theorem quoteBody_append_quote (front : Path) : '"' ∉ front → ∀ (slashes : Nat) (rest : Path),
    quoteBody slashes (front ++ '"' :: rest) =
      doubledEnd (List.replicate slashes '\\' ++ front) ++ '\\' :: '"' :: quoteBody 0 rest := by
  induction front with
  | nil =>
      intro _ slashes rest
      rw [List.nil_append, quoteBody, if_neg (by decide), if_pos rfl, List.append_nil, doubledEnd,
        trailingSlashes_replicate, List.replicate_append_replicate, List.replicate_succ', Nat.mul_two]
      simp
  | cons ch front ih =>
      intro plain slashes rest
      rw [List.mem_cons, not_or] at plain
      rw [List.cons_append, quoteBody]
      split
      · rename_i slash
        rw [ih plain.2, slash, List.replicate_succ', List.append_assoc]
        rfl
      · rename_i slash
        rw [if_neg (Ne.symm plain.1), ih plain.2, doubledEnd, doubledEnd, trailingSlashes_cons slash]
        simp

theorem doubledEnd_eq_iff {text other : Path} (open_ : other.getLast? ≠ some '\\') :
    doubledEnd text = other ↔ text = other := by
  rw [← trailingSlashes_eq_nil_iff] at open_
  by_cases slashes : trailingSlashes text = []
  · rw [doubledEnd, slashes, List.append_nil]
  · constructor
    · rintro rfl
      rw [trailingSlashes_eq_nil_iff, doubledEnd, List.getLast?_append_of_ne_nil _ slashes] at open_
      obtain ⟨last, found⟩ := Option.ne_none_iff_exists'.mp (mt List.getLast?_eq_none_iff.mp slashes)
      have slash := List.mem_takeWhile_imp (List.mem_of_getLast? found)
      rw [found, of_decide_eq_true slash] at open_
      exact absurd rfl open_
    · rintro rfl
      exact absurd open_ slashes

theorem doubledEnd_eq_self_iff {text : Path} : doubledEnd text = text ↔ text.getLast? ≠ some '\\' := by
  rw [doubledEnd, List.append_right_eq_self, trailingSlashes_eq_nil_iff]

end SearchEngine.Archive
