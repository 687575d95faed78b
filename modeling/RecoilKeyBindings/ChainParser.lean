import Mathlib.Data.List.Basic
import Mathlib.Data.List.Count
import Mathlib.Algebra.Group.Int
import RecoilKeyBindings.Keys

/-!
# Shortcut text to key chains

`ParseSingleChain` reads the text through a `std::stringstream`, one `getline` at a time
with a 256-byte buffer and `','` as delimiter, and hands each segment to `CKeySet::Parse`.
`ParseKeyChain` retries a failed parse with commas rewritten, one at a time from the right,
as the `"%#x"` text of the key code of `','`. Strings are character lists here, as the
source rewrites them by position.
-/

namespace RecoilKeyBindings.ChainParser

open RecoilKeyBindings.Keys

set_option autoImplicit false

/-- `std::istream::getline(buffer, size, delim)` on the unread input, `stored` characters
having been stored already: the characters stored, the unread rest, and `good()` afterwards.
End of input sets `eofbit`, and `size - 1` stored characters before the delimiter set
`failbit`; only an extracted delimiter leaves the stream good. -/
def getline (size : Nat) (delim : Char) (stored : Nat) : List Char → List Char × List Char × Bool
  | [] => ([], [], false)
  | c :: rest =>
      if c = delim then ([], rest, true)
      else if size ≤ stored + 1 then ([], c :: rest, false)
      else
        let (segment, unread, good) := getline size delim (stored + 1) rest
        (c :: segment, unread, good)

theorem getline_unread_lt (size : Nat) (delim : Char) (stored : Nat) (input : List Char)
    (good : (getline size delim stored input).2.2 = true) :
    (getline size delim stored input).2.1.length < input.length := by
  induction input generalizing stored with
  | nil => simp [getline] at good
  | cons c rest induction =>
      simp only [getline] at good ⊢
      split_ifs at good ⊢
      · simp
      · simpa using Nat.lt_succ_of_lt (induction (stored + 1) good)

/-- The `while (ss.good())` loop of `ParseSingleChain` from the unread input on: every
segment read is parsed and appended, and a segment that does not parse fails the chain. -/
def parseSegments (parse : String → Option KeySet) (input : List Char) : Option (List KeySet) :=
  let read := getline 256 ',' 0 input
  match parse ⟨read.1.takeWhile (· ≠ '\x00')⟩ with
  | none => none
  | some ks =>
      if good : read.2.2 = true then (parseSegments parse read.2.1).map (ks :: ·)
      else some [ks]
termination_by input.length
decreasing_by exact getline_unread_lt 256 ',' 0 input good

/-- `ParseSingleChain(keystr, kc)`: a fresh stream is good, so the loop runs at least once. -/
def parseSingleChain (parse : String → Option KeySet) (keystr : List Char) :
    Option (List KeySet) :=
  parseSegments parse keystr

/-- `keystr.rfind(c, pos)`: the last position at or before `pos` holding `c`. -/
def rfind (s : List Char) (c : Char) : Nat → Option Nat
  | 0 => if s[0]? = some c then some 0 else none
  | pos + 1 => if s[pos + 1]? = some c then some (pos + 1) else rfind s c pos

/-- `IntToString(code, "%#x")`: the code as an unsigned 32-bit value in lower-case
hexadecimal, with the `0x` prefix that `#` adds to a nonzero value. -/
def hexString (code : Int) : List Char :=
  let value := (code % 2 ^ 32).toNat
  if value = 0 then ['0'] else '0' :: 'x' :: Nat.toDigits 16 value

/-- The number of `','` at positions up to `pos`, which every retry of `ParseKeyChain`
lowers. -/
def commasUpTo (keystr : List Char) (pos : Nat) : Nat := (keystr.take (pos + 1)).count ','

theorem rfind_spec (s : List Char) (c : Char) (pos i : Nat) (found : rfind s c pos = some i) :
    i ≤ pos ∧ s[i]? = some c ∧ (s.take (pos + 1)).count c = (s.take i).count c + 1 := by
  induction pos with
  | zero =>
      simp only [rfind] at found
      split_ifs at found with atZero
      cases found
      simp [List.take_succ, atZero]
  | succ pos induction =>
      simp only [rfind] at found
      split_ifs at found with atPos
      · cases found
        simp [List.take_succ (n := pos + 1), atPos, List.count_append]
      · obtain ⟨before, atI, counted⟩ := induction found
        refine ⟨by omega, atI, ?_⟩
        rw [List.take_succ (n := pos + 1), List.count_append, counted]
        cases next : s[pos + 1]? with
        | none => simp
        | some d => simp [List.count_singleton', show d ≠ c from fun same => atPos (same ▸ next)]

theorem commasUpTo_before_lt (keystr : List Char) (pos cpos : Nat)
    (found : rfind keystr ',' pos = some cpos) (positive : cpos ≠ 0) :
    commasUpTo keystr (cpos - 1) < commasUpTo keystr pos := by
  obtain ⟨-, -, counted⟩ := rfind_spec keystr ',' pos cpos found
  simp only [commasUpTo, Nat.sub_add_cancel (Nat.pos_of_ne_zero positive), counted]
  omega

theorem commasUpTo_replace_lt (keystr : List Char) (pos cpos : Nat) (code : Int)
    (found : rfind keystr ',' pos = some cpos) :
    commasUpTo (keystr.take cpos ++ hexString code ++ keystr.drop (cpos + 1)) cpos <
      commasUpTo keystr pos := by
  obtain ⟨-, atCpos, counted⟩ := rfind_spec keystr ',' pos cpos found
  have inside : cpos < keystr.length := (List.getElem?_eq_some_iff.1 atCpos).1
  have prefixLength : (keystr.take cpos).length = cpos := by simp; omega
  have leadingZero : (hexString code ++ keystr.drop (cpos + 1)).take 1 = ['0'] := by
    simp only [hexString]
    split_ifs <;> rfl
  have front : (keystr.take cpos ++ (hexString code ++ keystr.drop (cpos + 1))).take (cpos + 1) =
      keystr.take cpos ++ ['0'] := by
    rw [List.take_append_eq_append_take, List.take_of_length_le (by omega), prefixLength,
      Nat.add_sub_cancel_left, leadingZero]
  simp only [commasUpTo, counted, List.append_assoc, front, List.count_append]
  simp

/-- `ParseKeyChain(keystr, kc, pos)`: the text as it stands, then, at the last comma at or
before `pos`, first the earlier commas with this one kept, then this one rewritten. -/
def parseKeyChain (env : Collaborators) (keystr : List Char) (pos : Nat) :
    Option (List KeySet) :=
  match parseSingleChain env.parse keystr with
  | some kc => some kc
  | none =>
      match found : rfind keystr ',' pos with
      | none => none
      | some cpos =>
          let kept := if positive : cpos ≠ 0 then parseKeyChain env keystr (cpos - 1) else none
          match kept with
          | some kc => some kc
          | none =>
              parseKeyChain env (keystr.take cpos ++ hexString env.commaCode ++
                keystr.drop (cpos + 1)) cpos
termination_by commasUpTo keystr pos
decreasing_by
  · exact commasUpTo_before_lt keystr pos cpos found positive
  · exact commasUpTo_replace_lt keystr pos cpos env.commaCode found

theorem parseKeyChain_of_rfind_none (env : Collaborators) (keystr : List Char) (pos : Nat)
    (found : rfind keystr ',' pos = none) :
    parseKeyChain env keystr pos = parseSingleChain env.parse keystr := by
  rw [parseKeyChain]
  split
  · next kc parsed => exact parsed.symm
  · next failed =>
    split
    · exact failed.symm
    · next cpos found' => simp [found] at found'

theorem parseKeyChain_of_rfind_some (env : Collaborators) (keystr : List Char) (pos cpos : Nat)
    (found : rfind keystr ',' pos = some cpos) :
    parseKeyChain env keystr pos =
      (parseSingleChain env.parse keystr <|>
        (if cpos ≠ 0 then parseKeyChain env keystr (cpos - 1) else none) <|>
          parseKeyChain env (keystr.take cpos ++ hexString env.commaCode ++ keystr.drop (cpos + 1))
            cpos) := by
  rw [parseKeyChain]
  split
  · next kc parsed => simp [parsed]
  · next failed =>
    split
    · next found' => simp [found] at found'
    · next cpos' found' =>
      obtain rfl : cpos' = cpos := by simpa [found] using found'.symm
      simp only [failed, HOrElse.hOrElse, OrElse.orElse, Option.orElse]
      split <;> split <;> simp_all

theorem parseKeyChain_congr (env : Collaborators) (keystr : List Char) (pos pos' : Nat)
    (same : rfind keystr ',' pos = rfind keystr ',' pos') :
    parseKeyChain env keystr pos = parseKeyChain env keystr pos' := by
  cases found : rfind keystr ',' pos with
  | none => rw [parseKeyChain_of_rfind_none env keystr pos found,
      parseKeyChain_of_rfind_none env keystr pos' (same ▸ found)]
  | some cpos => rw [parseKeyChain_of_rfind_some env keystr pos cpos found,
      parseKeyChain_of_rfind_some env keystr pos' cpos (same ▸ found)]
/-- The call `ParseKeyChain(keystr, &kc)` of `Bind`: `pos` defaults to `npos`, and searching
back from `npos` or from the length finds the same commas. -/
def parseShortcut (env : Collaborators) (keystr : String) : Option (List KeySet) :=
  parseKeyChain env keystr.data keystr.length

theorem getline_append (size : Nat) (delim : Char) (stored : Nat) (segment tail : List Char)
    (noDelim : delim ∉ segment) (fits : stored + segment.length < size) :
    getline size delim stored (segment ++ tail) =
      ((segment ++ (getline size delim (stored + segment.length) tail).1),
        (getline size delim (stored + segment.length) tail).2.1,
        (getline size delim (stored + segment.length) tail).2.2) := by
  induction segment generalizing stored with
  | nil => simp
  | cons c segment induction =>
      have other : c ≠ delim := fun same => noDelim (same ▸ List.mem_cons_self _ _)
      simp only [List.length_cons] at fits
      rw [List.cons_append]
      simp only [getline, if_neg other, if_neg (show ¬size ≤ stored + 1 by omega)]
      rw [induction (stored + 1) (fun member => noDelim (List.mem_cons_of_mem _ member)) (by omega)]
      simp [Nat.add_assoc, Nat.add_comm 1]

theorem getline_of_not_mem (size : Nat) (delim : Char) (stored : Nat) (input : List Char)
    (noDelim : delim ∉ input) (short : stored + input.length < size) :
    getline size delim stored input = (input, [], false) := by
  simpa [getline] using getline_append size delim stored input [] noDelim short

theorem rfind_of_not_mem (s : List Char) (c : Char) (absent : c ∉ s) (pos : Nat) :
    rfind s c pos = none := by
  have nowhere : ∀ i, s[i]? ≠ some c := fun i found => absent (List.getElem?_mem found)
  induction pos with
  | zero => simp [rfind, nowhere]
  | succ pos induction => simp [rfind, induction, nowhere]

theorem parseShortcut_of_plain (env : Collaborators) (keystr : String)
    (noComma : ',' ∉ keystr.data) (noNul : '\x00' ∉ keystr.data) (short : keystr.length < 256) :
    parseShortcut env keystr = (env.parse keystr).map ([·]) := by
  have read : getline 256 ',' 0 keystr.data = (keystr.data, [], false) :=
    getline_of_not_mem 256 ',' 0 keystr.data noComma (by simpa using short)
  have whole : keystr.data.takeWhile (· ≠ '\x00') = keystr.data :=
    List.takeWhile_eq_self_iff.2 fun c member => by
      simpa using fun same : c = '\x00' => noNul (same ▸ member)
  have single : parseSingleChain env.parse keystr.data = (env.parse keystr).map ([·]) := by
    rw [parseSingleChain, parseSegments]
    simp only [read, whole, Bool.false_eq_true, dite_false]
    cases env.parse keystr <;> rfl
  unfold parseShortcut
  rw [parseKeyChain]
  cases parsed : env.parse keystr with
  | none =>
      simp only [single, parsed, Option.map_none']
      split
      · rfl
      · next cpos found => simp [rfind_of_not_mem _ _ noComma] at found
  | some ks => simp [single, parsed]

/-! ### The retries of `ParseKeyChain` -/

theorem digitChar_ne_comma : ∀ d < 16, Nat.digitChar d ≠ ',' := by decide

theorem comma_not_mem_toDigitsCore (fuel n : Nat) (digits : List Char) (clean : ',' ∉ digits) :
    ',' ∉ Nat.toDigitsCore 16 fuel n digits := by
  induction fuel generalizing n digits with
  | zero => exact clean
  | succ fuel induction =>
    have digit : ',' ∉ Nat.digitChar (n % 16) :: digits := by
      simpa [clean] using (digitChar_ne_comma (n % 16) (Nat.mod_lt n (by decide))).symm
    show ',' ∉ if n / 16 = 0 then Nat.digitChar (n % 16) :: digits
      else Nat.toDigitsCore 16 fuel (n / 16) (Nat.digitChar (n % 16) :: digits)
    split
    exacts [digit, induction _ _ digit]

theorem comma_not_mem_hexString (code : Int) : ',' ∉ hexString code := by
  simp only [hexString]
  split
  · decide
  · simpa using comma_not_mem_toDigitsCore _ _ [] (List.not_mem_nil _)

/-- `ParseKeyChain` terminates: each of its two retries runs on fewer commas at or before its
position. The first restarts `rfind` just before the comma at `cpos`; the second rewrites that
comma as hex digits, none of them a comma, and restarts at `cpos`. -/
theorem parseKeyChain_retries_on_fewer_commas (keystr : List Char) (pos cpos : Nat) (code : Int)
    (found : rfind keystr ',' pos = some cpos) :
    cpos ≤ pos ∧ ',' ∉ hexString code ∧
      (cpos ≠ 0 → commasUpTo keystr (cpos - 1) < commasUpTo keystr pos) ∧
      commasUpTo (keystr.take cpos ++ hexString code ++ keystr.drop (cpos + 1)) cpos <
        commasUpTo keystr pos :=
  ⟨(rfind_spec keystr ',' pos cpos found).1, comma_not_mem_hexString code,
    commasUpTo_before_lt keystr pos cpos found, commasUpTo_replace_lt keystr pos cpos code found⟩

theorem parseKeyChain_retries_on_fewer_commas_sample :
    rfind ",,,".data ',' 3 = some 2 ∧
      (2 ≤ 3 ∧ ',' ∉ hexString 44 ∧
        (2 ≠ 0 → commasUpTo ",,,".data (2 - 1) < commasUpTo ",,,".data 3) ∧
        commasUpTo (",,,".data.take 2 ++ hexString 44 ++ ",,,".data.drop (2 + 1)) 2 <
          commasUpTo ",,,".data 3) :=
  ⟨by decide, parseKeyChain_retries_on_fewer_commas ",,,".data 3 2 44 (by decide)⟩

/-! ### `ParseSingleChain` reads the segments between commas -/

/-- With no NUL byte (which would end the C string each segment is copied through) and no
segment filling the 256-byte buffer, the loop of `ParseSingleChain` parses the segments of the
text split at every comma, in order. -/
theorem parseSegments_eq_mapM (parse : String → Option KeySet) (input : List Char)
    (noNul : '\x00' ∉ input) (fits : ∀ segment ∈ input.splitOn ',', segment.length < 256) :
    parseSegments parse input = (input.splitOn ',').mapM fun segment => parse ⟨segment⟩ := by
  have whole : ∀ segment : List Char, segment ⊆ input →
      segment.takeWhile (· ≠ '\x00') = segment := fun segment sub =>
    List.takeWhile_eq_self_iff.2 fun c member => by
      simpa using fun same : c = '\x00' => noNul (same ▸ sub member)
  rw [parseSegments]
  by_cases comma : ',' ∈ input
  · -- the first comma ends the first segment, and the loop goes on after it
    have found : input.find? (· == ',') = some ',' := by
      obtain ⟨c, found⟩ := Option.isSome_iff_exists.1
        (List.find?_isSome.2 ⟨',', comma, beq_self_eq_true ','⟩ : (input.find? (· == ',')).isSome)
      rwa [beq_iff_eq.1 (List.find?_eq_some.1 found).1] at found
    obtain ⟨-, segment, rest, split, before⟩ := List.find?_eq_some.1 found
    have noComma : ',' ∉ segment := fun member => by simpa using before ',' member
    have splitted : input.splitOn ',' = segment :: rest.splitOn ',' := by
      rw [split]
      exact List.splitOnP_first (· == ',') segment
        (fun x member same => noComma (beq_iff_eq.1 same ▸ member)) ',' (beq_self_eq_true _) rest
    have read : getline 256 ',' 0 input = (segment, rest, true) := by
      simpa [getline, split] using getline_append 256 ',' 0 segment (',' :: rest) noComma
        (by simpa using fits segment (by simp [splitted]))
    have shorter : rest.length < input.length := by simp [split]; omega
    simp only [read, whole segment (split ▸ List.subset_append_left _ _), splitted, dite_true,
      List.mapM_cons]
    rw [parseSegments_eq_mapM parse rest (fun member => noNul (by simp [split, member]))
      fun segment member => fits segment (by simp [splitted, member])]
    cases parse ⟨segment⟩ <;> cases (rest.splitOn ',').mapM fun segment => parse ⟨segment⟩ <;> rfl
  · -- one segment, read to the end of the text
    have single : input.splitOn ',' = [input] :=
      List.splitOnP_eq_single (· == ',') _ fun x member same => comma (beq_iff_eq.1 same ▸ member)
    have read : getline 256 ',' 0 input = (input, [], false) :=
      getline_of_not_mem 256 ',' 0 input comma (by simpa using fits input (by simp [single]))
    simp only [read, whole input (List.Subset.refl _), single, List.mapM_cons, List.mapM_nil]
    cases parse ⟨input⟩ <;> rfl
termination_by input.length
decreasing_by exact shorter

/-- `ParseSingleChain` accepts a text exactly when `CKeySet::Parse` accepts every segment of it
split at each comma (an empty text, or one ending in a comma, has an empty last segment), and it
then gives the parsed segments in order; this holds of texts without NUL bytes whose segments
fit the 256-byte buffer. -/
theorem parseSingleChain_reads_segments (parse : String → Option KeySet) (keystr : List Char)
    (noNul : '\x00' ∉ keystr) (fits : ∀ segment ∈ keystr.splitOn ',', segment.length < 256) :
    parseSingleChain parse keystr = (keystr.splitOn ',').mapM fun segment => parse ⟨segment⟩ :=
  parseSegments_eq_mapM parse keystr noNul fits

/-- A `CKeySet::Parse` that accepts every text and records its length as the key. -/
def lengthParse (text : String) : Option KeySet := some ⟨text.length, 0#8, .keyCode⟩

theorem parseSingleChain_reads_segments_sample :
    '\x00' ∉ "a,,bc".data ∧ (∀ segment ∈ "a,,bc".data.splitOn ',', segment.length < 256) ∧
      parseSingleChain lengthParse "a,,bc".data =
        ("a,,bc".data.splitOn ',').mapM fun segment => lengthParse ⟨segment⟩ :=
  ⟨by decide, by decide, parseSingleChain_reads_segments lengthParse _ (by decide) (by decide)⟩

/-- A segment of 256 characters is cut to the 255 the buffer holds and the segments after it are
dropped, and a NUL byte ends its segment: the chain differs from the parsed segments. -/
theorem parseSingleChain_truncates_long_segment :
    parseSingleChain lengthParse (List.replicate 256 'a' ++ [',', 'b']) =
        some [⟨255, 0#8, .keyCode⟩] ∧
      ((List.replicate 256 'a' ++ [',', 'b']).splitOn ',').mapM
          (fun segment => lengthParse ⟨segment⟩) =
        some [⟨256, 0#8, .keyCode⟩, ⟨1, 0#8, .keyCode⟩] ∧
      parseSingleChain lengthParse ['a', '\x00', 'b'] = some [⟨1, 0#8, .keyCode⟩] ∧
      (['a', '\x00', 'b'].splitOn ',').mapM (fun segment => lengthParse ⟨segment⟩) =
        some [⟨3, 0#8, .keyCode⟩] := by
  have noComma : ∀ n, ',' ∉ List.replicate n 'a' := fun n member => by
    simp [List.mem_replicate] at member
  have lengthOf : ∀ n, lengthParse ⟨List.replicate n 'a'⟩ = some ⟨n, 0#8, .keyCode⟩ := fun n => by
    simp only [lengthParse, String.length, List.length_replicate]
  -- the buffer fills after 255 characters, before the next `a`
  have full : getline 256 ',' 0 (List.replicate 256 'a' ++ [',', 'b']) =
      (List.replicate 255 'a', ['a', ',', 'b'], false) := by
    have stop : getline 256 ',' (0 + (List.replicate 255 'a').length) ['a', ',', 'b'] =
        ([], ['a', ',', 'b'], false) := by
      rw [List.length_replicate]
      rfl
    rw [List.replicate_succ', List.append_assoc, List.singleton_append,
      getline_append 256 ',' 0 _ ['a', ',', 'b'] (noComma 255)
        (by rw [List.length_replicate]; decide), stop, List.append_nil]
  refine ⟨?_, ?_, by rw [parseSingleChain, parseSegments]; rfl, by decide⟩
  · rw [parseSingleChain, parseSegments, full]
    simp only [List.takeWhile_replicate, show decide ('a' ≠ '\x00') = true from rfl, if_true,
      lengthOf]
    rfl
  · rw [List.splitOn, List.splitOnP_first (· == ',') _ (fun x member same =>
      noComma 256 (beq_iff_eq.1 same ▸ member)) ',' (beq_self_eq_true _)]
    simp only [List.mapM_cons, lengthOf]
    rfl

end RecoilKeyBindings.ChainParser
