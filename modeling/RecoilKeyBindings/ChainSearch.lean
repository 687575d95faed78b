import Mathlib.Algebra.GeomSum
import RecoilKeyBindings.ChainParser
import RecoilKeyBindings.MutatorLaws

/-!
# Which comma split `ParseKeyChain` returns

`ParseKeyChain` retries a text that does not parse by rewriting commas as the `"%#x"` text of the
key code of `','`. Over the set `R` of comma positions rewritten so far, its recursion is the
search `firstAccepted`: with `c` the last comma still free, first every set without `c`, then
every set with it. It therefore finds a split whenever one parses, and returns the one whose set
comes first when read as a binary number with bit `p` for position `p` (`binaryWeight`), the
rightmost comma the most significant; that need not be a set of fewest commas.

`parseKeyChain_replaceCommas` says that the code is the search, and `firstAccepted_least` what
the search returns.
-/

namespace RecoilKeyBindings.ChainSearch

open RecoilKeyBindings.Keys RecoilKeyBindings.ChainParser RecoilKeyBindings.MutatorLaws

set_option autoImplicit false

/-! ### Commas rewritten as hex text -/

/-- The text from position `start` on, with the character at every position of `R` rewritten
as `text`. -/
def replaceFrom (R : Finset ℕ) (text : List Char) : ℕ → List Char → List Char
  | _, [] => []
  | start, c :: rest => (if start ∈ R then text else [c]) ++ replaceFrom R text (start + 1) rest

/-- `keystr` with the comma at every position of `R` rewritten as `text`, as the successive
`keystr.replace(cpos, 1, ...)` of `ParseKeyChain` leave it. -/
def replaceCommas (keystr : List Char) (R : Finset ℕ) (text : List Char) : List Char :=
  replaceFrom R text 0 keystr

/-- The positions before `n` that hold a comma, the last first: the commas `rfind` visits in
turn. -/
def commasBefore (keystr : List Char) : ℕ → List ℕ
  | 0 => []
  | n + 1 => if keystr[n]? = some ',' then n :: commasBefore keystr n else commasBefore keystr n

/-- The binary value of a set of positions, position `p` standing for bit `p`. -/
def binaryWeight (R : Finset ℕ) : ℕ := ∑ p ∈ R, 2 ^ p

@[simp] theorem replaceFrom_empty (text : List Char) (start : ℕ) (s : List Char) :
    replaceFrom ∅ text start s = s := by
  induction s generalizing start <;> simp [replaceFrom, *]

theorem replaceFrom_split (R : Finset ℕ) (text : List Char) (start : ℕ) (s : List Char) (k : ℕ)
    (below : ∀ r ∈ R, start + k ≤ r) :
    replaceFrom R text start s = s.take k ++ replaceFrom R text (start + k) (s.drop k) := by
  induction s generalizing start k with
  | nil => simp [replaceFrom]
  | cons c rest induction =>
    cases k with
    | zero => simp
    | succ k =>
      have kept : start ∉ R := fun member => by have := below start member; omega
      rw [replaceFrom, if_neg kept, induction (start + 1) k fun r member => by
        have := below r member; omega]
      simp [Nat.add_assoc, Nat.add_comm 1 k]

theorem replaceFrom_insert_of_lt (R : Finset ℕ) (text : List Char) (c start : ℕ) (lt : c < start)
    (s : List Char) : replaceFrom (insert c R) text start s = replaceFrom R text start s := by
  induction s generalizing start with
  | nil => rfl
  | cons d rest induction =>
    simp only [replaceFrom, Finset.mem_insert, show start ≠ c by omega, false_or,
      induction (start + 1) (by omega)]

theorem take_replaceCommas (keystr : List Char) (R : Finset ℕ) (text : List Char) (k : ℕ)
    (below : ∀ r ∈ R, k ≤ r) : (replaceCommas keystr R text).take k = keystr.take k := by
  rw [replaceCommas, replaceFrom_split R text 0 keystr k (by simpa using below),
    List.take_append_eq_append_take, List.take_take, Nat.min_self]
  by_cases short : keystr.length < k
  · simp [List.drop_of_length_le short.le, replaceFrom]
  · simp [Nat.min_eq_left (Nat.not_lt.1 short)]

/-- Rewriting one more comma, left of all those rewritten, is the `replace` of the code. -/
theorem replaceCommas_insert (keystr : List Char) (R : Finset ℕ) (text : List Char) (c : ℕ)
    (inside : c < keystr.length) (after : ∀ r ∈ R, c < r) :
    replaceCommas keystr (insert c R) text =
      (replaceCommas keystr R text).take c ++ text ++ (replaceCommas keystr R text).drop (c + 1) := by
  have whole := replaceFrom_split R text 0 keystr (c + 1) fun r member => by
    have := after r member; omega
  have inserted := replaceFrom_split (insert c R) text 0 keystr c fun r member => by
    rcases Finset.mem_insert.1 member with rfl | member
    · omega
    · have := after r member; omega
  have prefixLength : (keystr.take (c + 1)).length = c + 1 := by simp; omega
  simp only [replaceCommas, Nat.zero_add] at whole inserted ⊢
  rw [inserted, List.drop_eq_getElem_cons inside, replaceFrom, if_pos (Finset.mem_insert_self c R),
    replaceFrom_insert_of_lt R text c (c + 1) (Nat.lt_succ_self c), whole,
    List.take_append_of_le_length (by omega), List.take_take, Nat.min_eq_left (Nat.le_succ c),
    List.drop_left' prefixLength, List.append_assoc]

theorem rfind_congr {s t : List Char} (c : Char) (pos : ℕ) (same : ∀ i ≤ pos, s[i]? = t[i]?) :
    rfind s c pos = rfind t c pos := by
  induction pos with
  | zero => simp [rfind, same 0 le_rfl]
  | succ pos induction =>
    simp [rfind, same (pos + 1) le_rfl, induction fun i le => same i (Nat.le_succ_of_le le)]

/-! ### The commas `rfind` visits -/

theorem commasBefore_of_rfind_none {keystr : List Char} {pos : ℕ}
    (found : rfind keystr ',' pos = none) : commasBefore keystr (pos + 1) = [] := by
  induction pos with
  | zero =>
    simp only [rfind] at found
    split_ifs at found with atZero
    simp [commasBefore, atZero]
  | succ pos induction =>
    simp only [rfind] at found
    split_ifs at found with atPos
    rw [commasBefore, if_neg atPos, induction found]

theorem commasBefore_of_rfind_some {keystr : List Char} {pos cpos : ℕ}
    (found : rfind keystr ',' pos = some cpos) :
    commasBefore keystr (pos + 1) = cpos :: commasBefore keystr cpos := by
  induction pos with
  | zero =>
    simp only [rfind] at found
    split_ifs at found with atZero
    cases found
    simp [commasBefore, atZero]
  | succ pos induction =>
    simp only [rfind] at found
    split_ifs at found with atPos
    · cases found
      rw [commasBefore, if_pos atPos]
    · rw [commasBefore, if_neg atPos, induction found]

theorem mem_commasBefore (keystr : List Char) (n p : ℕ) :
    p ∈ commasBefore keystr n ↔ p < n ∧ keystr[p]? = some ',' := by
  induction n with
  | zero => simp [commasBefore]
  | succ n induction =>
    rw [commasBefore]
    by_cases same : p = n
    · subst same
      split_ifs with atN <;> simp [atN, induction]
    · have below : p < n + 1 ↔ p < n := by omega
      split_ifs <;> simp [induction, same, below]

theorem commasBefore_sorted (keystr : List Char) (n : ℕ) :
    (commasBefore keystr n).Pairwise (· > ·) := by
  induction n with
  | zero => exact List.Pairwise.nil
  | succ n induction =>
    rw [commasBefore]
    split_ifs
    · exact List.Pairwise.cons (fun p member => ((mem_commasBefore keystr n p).1 member).1) induction
    · exact induction

/-! ### The search -/

section Search

variable {β : Type} (attempt : Finset ℕ → Option β)

/-- The search over the free commas `commas` (the last first), the commas of `R` already
rewritten: every set without the first free comma, then every set with it. -/
def firstAccepted : Finset ℕ → List ℕ → Option β
  | R, [] => attempt R
  | R, c :: commas => firstAccepted R commas <|> firstAccepted (insert c R) commas

theorem firstAccepted_of_attempt {R : Finset ℕ} {x : β} (found : attempt R = some x)
    (commas : List ℕ) : firstAccepted attempt R commas = some x := by
  induction commas generalizing R with
  | nil => exact found
  | cons c commas induction => simp [firstAccepted, induction found]

theorem insert_within {c : ℕ} {commas : List ℕ} {Q : Finset ℕ} (within : ∀ q ∈ Q, q ∈ commas) :
    ∀ q ∈ insert c Q, q ∈ c :: commas := fun q member =>
  (Finset.mem_insert.1 member).elim (fun same => same ▸ List.mem_cons_self c commas)
    fun member => List.mem_cons_of_mem c (within q member)

theorem erase_within {c : ℕ} {commas : List ℕ} {Q : Finset ℕ} (within : ∀ q ∈ Q, q ∈ c :: commas) :
    ∀ q ∈ Q.erase c, q ∈ commas := fun q member =>
  (List.mem_cons.1 (within q (Finset.mem_of_mem_erase member))).resolve_left
    (Finset.ne_of_mem_erase member)

theorem firstAccepted_eq_none_iff (R : Finset ℕ) (commas : List ℕ) :
    firstAccepted attempt R commas = none ↔
      ∀ Q : Finset ℕ, (∀ q ∈ Q, q ∈ commas) → attempt (R ∪ Q) = none := by
  induction commas generalizing R with
  | nil =>
    refine ⟨fun failed Q within => ?_, fun all => by simpa using all ∅ (by simp)⟩
    rw [Finset.eq_empty_of_forall_not_mem fun q member => List.not_mem_nil q (within q member),
      Finset.union_empty]
    exact failed
  | cons c commas induction =>
    rw [firstAccepted, Option.orElse_eq_none, induction, induction]
    constructor
    · rintro ⟨without, withC⟩ Q within
      by_cases member : c ∈ Q
      · rw [← Finset.insert_erase member, Finset.union_insert, ← Finset.insert_union]
        exact withC _ (erase_within within)
      · rw [← Finset.erase_eq_of_not_mem member]
        exact without _ (erase_within within)
    · intro all
      refine ⟨fun Q within => all Q fun q mem => List.mem_cons_of_mem c (within q mem),
        fun Q within => ?_⟩
      rw [Finset.insert_union, ← Finset.union_insert]
      exact all _ (insert_within within)

theorem firstAccepted_least (R : Finset ℕ) (commas : List ℕ) (sorted : commas.Pairwise (· > ·))
    (x : β) (found : firstAccepted attempt R commas = some x) :
    ∃ Q : Finset ℕ, (∀ q ∈ Q, q ∈ commas) ∧ attempt (R ∪ Q) = some x ∧
      ∀ Q' : Finset ℕ, (∀ q ∈ Q', q ∈ commas) → (attempt (R ∪ Q')).isSome →
        binaryWeight Q ≤ binaryWeight Q' := by
  induction commas generalizing R with
  | nil => exact ⟨∅, by simp, by simpa using found, fun Q' _ _ => by simp [binaryWeight]⟩
  | cons c commas induction =>
    obtain ⟨larger, sorted⟩ := List.pairwise_cons.1 sorted
    -- a set of later commas weighs less than `2 ^ c`, a set holding `c` at least that
    have light : ∀ Q : Finset ℕ, (∀ q ∈ Q, q ∈ commas) → binaryWeight Q < 2 ^ c := fun Q within =>
      Nat.geomSum_lt le_rfl fun q mem => larger q (within q mem)
    have heavy : ∀ Q : Finset ℕ, c ∈ Q → 2 ^ c ≤ binaryWeight Q := fun Q mem =>
      Finset.single_le_sum (fun _ _ => Nat.zero_le _) mem
    rw [firstAccepted] at found
    cases without : firstAccepted attempt R commas with
    | some y =>
      obtain rfl : y = x := by simpa [without] using found
      obtain ⟨Q, within, parsed, least⟩ := induction R sorted without
      refine ⟨Q, fun q mem => List.mem_cons_of_mem c (within q mem), parsed,
        fun Q' within' accepted => ?_⟩
      by_cases member : c ∈ Q'
      · exact ((light Q within).trans_le (heavy Q' member)).le
      · exact least Q' (Finset.erase_eq_of_not_mem member ▸ erase_within within') accepted
    | none =>
      rw [without] at found
      obtain ⟨Q, within, parsed, least⟩ := induction (insert c R) sorted found
      have notIn : c ∉ Q := fun mem => Nat.lt_irrefl c (larger c (within c mem))
      refine ⟨insert c Q, insert_within within, by rwa [Finset.union_insert, ← Finset.insert_union],
        fun Q' within' accepted => ?_⟩
      -- an accepted set rewrites `c`, as no set without it is accepted
      have member : c ∈ Q' := by
        by_contra member
        have failed := (firstAccepted_eq_none_iff attempt R commas).1 without Q'
          (Finset.erase_eq_of_not_mem member ▸ erase_within within')
        simp [failed] at accepted
      have rest := least (Q'.erase c) (erase_within within')
        (by rwa [Finset.insert_union, ← Finset.union_insert, Finset.insert_erase member])
      calc binaryWeight (insert c Q) = 2 ^ c + binaryWeight Q := Finset.sum_insert notIn
        _ ≤ 2 ^ c + binaryWeight (Q'.erase c) := Nat.add_le_add_left rest _
        _ = binaryWeight Q' := Finset.add_sum_erase Q' _ member

end Search

/-! ### The code is the search -/

/-- `ParseKeyChain` on the text with the commas of `R` rewritten, all of them after `pos`, is the
search over the commas at or before `pos`. -/
theorem parseKeyChain_replaceCommas (env : Collaborators) (keystr : List Char) (pos : ℕ) :
    ∀ R : Finset ℕ, (∀ r ∈ R, pos < r) →
      parseKeyChain env (replaceCommas keystr R (hexString env.commaCode)) pos =
        firstAccepted (fun R => parseSingleChain env.parse
          (replaceCommas keystr R (hexString env.commaCode))) R (commasBefore keystr (pos + 1)) := by
  induction pos using Nat.strong_induction_on with
  | _ pos induction =>
  intro R after
  have unchanged : ∀ i ≤ pos,
      (replaceCommas keystr R (hexString env.commaCode))[i]? = keystr[i]? := fun i le => by
    rw [← List.getElem?_take_of_lt (Nat.lt_succ_of_le le),
      take_replaceCommas keystr R _ (pos + 1) after, List.getElem?_take_of_lt (Nat.lt_succ_of_le le)]
  cases found : rfind keystr ',' pos with
  | none =>
    rw [parseKeyChain_of_rfind_none env _ pos ((rfind_congr ',' pos unchanged).trans found),
      commasBefore_of_rfind_none found]
    rfl
  | some cpos =>
    obtain ⟨le, atCpos, -⟩ := rfind_spec keystr ',' pos cpos found
    have inside : cpos < keystr.length := (List.getElem?_eq_some_iff.1 atCpos).1
    have afterCpos : ∀ r ∈ R, cpos < r := fun r member => Nat.lt_of_le_of_lt le (after r member)
    rw [parseKeyChain_of_rfind_some env _ pos cpos ((rfind_congr ',' pos unchanged).trans found),
      commasBefore_of_rfind_some found, firstAccepted,
      ← replaceCommas_insert keystr R _ cpos inside afterCpos]
    -- the rewritten text has the `0` of the hex text where the comma was
    have zeroAt : (replaceCommas keystr (insert cpos R) (hexString env.commaCode))[cpos]? =
        some '0' := by
      have prefixLength : ((replaceCommas keystr R (hexString env.commaCode)).take cpos).length =
          cpos := by
        rw [take_replaceCommas keystr R _ cpos fun r member => (afterCpos r member).le,
          List.length_take_of_le inside.le]
      rw [replaceCommas_insert keystr R _ cpos inside afterCpos, List.append_assoc,
        List.getElem?_append_right prefixLength.le, prefixLength, Nat.sub_self]
      simp only [hexString]
      split <;> simp
    cases parsed : parseSingleChain env.parse (replaceCommas keystr R (hexString env.commaCode)) with
    | some kc =>
      rw [firstAccepted_of_attempt _ parsed]
      rfl
    | none =>
      cases cpos with
      | zero =>
        rw [parseKeyChain_of_rfind_none env (replaceCommas keystr (insert 0 R) (hexString env.commaCode))
          0 (by simp [rfind, zeroAt])]
        simp [commasBefore, firstAccepted, parsed]
      | succ c =>
        rw [parseKeyChain_congr env _ (c + 1) c (by simp [rfind, zeroAt]),
          induction c (by omega) (insert (c + 1) R) fun r member =>
            (Finset.mem_insert.1 member).elim (fun same => same ▸ Nat.lt_succ_self c)
              fun member => Nat.lt_trans (Nat.lt_succ_self c) (afterCpos r member),
          if_pos (Nat.succ_ne_zero c), Nat.add_sub_cancel,
          induction c (by omega) R fun r member => Nat.lt_trans (Nat.lt_succ_self c) (afterCpos r member)]
        rfl

theorem parseShortcut_eq_firstAccepted (env : Collaborators) (keystr : String) :
    parseShortcut env keystr = firstAccepted (fun R => parseSingleChain env.parse
      (replaceCommas keystr.data R (hexString env.commaCode))) ∅
        (commasBefore keystr.data (keystr.length + 1)) := by
  simpa [replaceCommas] using parseKeyChain_replaceCommas env keystr.data keystr.length ∅ (by simp)

/-- `ParseKeyChain` (as `Bind` calls it) succeeds exactly when some set of the commas of the
text, rewritten as the hex text of the key code of `','`, gives a text `ParseSingleChain`
accepts; and it returns the chain of the accepted set of least binary value, the comma at
position `p` standing for bit `p`, so that the rightmost comma is the most significant. -/
theorem parseShortcut_least_binary_split (env : Collaborators) (keystr : String) :
    ((parseShortcut env keystr).isSome ↔ ∃ R : Finset ℕ, (∀ p ∈ R, keystr.data[p]? = some ',') ∧
        (parseSingleChain env.parse
          (replaceCommas keystr.data R (hexString env.commaCode))).isSome) ∧
      ∀ kc, parseShortcut env keystr = some kc →
        ∃ R : Finset ℕ, (∀ p ∈ R, keystr.data[p]? = some ',') ∧
          parseSingleChain env.parse (replaceCommas keystr.data R (hexString env.commaCode)) =
            some kc ∧
          ∀ R' : Finset ℕ, (∀ p ∈ R', keystr.data[p]? = some ',') →
            (parseSingleChain env.parse
              (replaceCommas keystr.data R' (hexString env.commaCode))).isSome →
            binaryWeight R ≤ binaryWeight R' := by
  -- the commas the search runs over are all the commas of the text
  have commas : ∀ R : Finset ℕ, (∀ q ∈ R, q ∈ commasBefore keystr.data (keystr.length + 1)) ↔
      ∀ p ∈ R, keystr.data[p]? = some ',' := fun R =>
    forall₂_congr fun p _ => by
      rw [mem_commasBefore]
      refine ⟨And.right, fun atP => ⟨?_, atP⟩⟩
      have := (List.getElem?_eq_some_iff.1 atP).1
      simp only [String.length] at this ⊢
      omega
  refine ⟨?_, fun kc parsed => ?_⟩
  · rw [Option.isSome_iff_ne_none, Ne, parseShortcut_eq_firstAccepted, firstAccepted_eq_none_iff]
    simp only [Finset.empty_union, not_forall, ← Option.isSome_iff_ne_none, exists_prop, commas]
  · rw [parseShortcut_eq_firstAccepted] at parsed
    obtain ⟨Q, within, accepted, least⟩ :=
      firstAccepted_least _ ∅ _ (commasBefore_sorted _ _) kc parsed
    exact ⟨Q, (commas Q).1 within, by simpa using accepted,
      fun R' atR' accepted' => least R' ((commas R').2 atR') (by simpa using accepted')⟩

/-- A `CKeySet::Parse` that accepts five texts, two of them holding the hex text of `','`, and
records each text's length as the key. -/
def splitParse (text : String) : Option KeySet :=
  if text ∈ ["a", "b", "c", "0x2cc", "a0x2cb0x2c"] then some ⟨text.length, 0#8, .keyCode⟩ else none

def splitCollaborators : Collaborators := { exampleCollaborators with parseWith := fun _ => splitParse }

/-- In `a,b,,c` the comma sets `{1, 3}` and `{4}` both give a text that parses. `ParseKeyChain`
tries `{1, 3}` (binary value 10) before `{4}` (16) and returns its chain of two chords, while
rewriting the one comma at 4 gives three. -/
theorem parseShortcut_misses_longest_split :
    parseShortcut splitCollaborators "a,b,,c" = some [⟨10, 0#8, .keyCode⟩, ⟨1, 0#8, .keyCode⟩] ∧
      parseSingleChain splitParse (replaceCommas "a,b,,c".data {4} (hexString 44)) =
        some [⟨1, 0#8, .keyCode⟩, ⟨1, 0#8, .keyCode⟩, ⟨5, 0#8, .keyCode⟩] := by
  rw [parseShortcut_eq_firstAccepted,
    show commasBefore "a,b,,c".data ("a,b,,c".length + 1) = [4, 3, 1] by decide]
  simp only [firstAccepted, show splitCollaborators.parse = splitParse from rfl,
    show splitCollaborators.commaCode = 44 from rfl]
  simp (disch := decide) only [parseSingleChain, parseSegments_eq_mapM]
  decide

end RecoilKeyBindings.ChainSearch
