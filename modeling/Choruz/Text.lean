import Mathlib.Data.List.DropRight
import Mathlib.Data.List.Sort

/-!
# White space and mentions

`str::trim`, `str::split_whitespace` and `contains_mention`, on the characters of a text.  A mention
is `@` and a name with no token character on either side; where a longer known name starts at the
same place, that name is meant.  `lower` is `str::to_lowercase`.
-/

namespace Choruz

/-- Unicode's `White_Space`. -/
def isWhitespace (c : Char) : Bool :=
  (9 ≤ c.toNat && c.toNat ≤ 13) || c.toNat = 32 || c.toNat = 0x85 || c.toNat = 0xA0
    || c.toNat = 0x1680 || (0x2000 ≤ c.toNat && c.toNat ≤ 0x200A) || c.toNat = 0x2028
    || c.toNat = 0x2029 || c.toNat = 0x202F || c.toNat = 0x205F || c.toNat = 0x3000

def trimChars (cs : List Char) : List Char :=
  ((cs.dropWhile isWhitespace).reverse.dropWhile isWhitespace).reverse

def trim (s : String) : String := String.ofList (trimChars s.toList)

def splitWhitespace (s : String) : List (List Char) :=
  (s.toList.splitOnP isWhitespace).filter (· ≠ [])

theorem trim_eq_empty {s : String} : trim s = "" ↔ ∀ c ∈ s.toList, isWhitespace c := by
  unfold trim trimChars
  rw [String.ofList_eq_empty_iff, List.reverse_eq_nil_iff, List.dropWhile_eq_nil_iff]
  simp
  refine ⟨fun h => List.dropWhile_eq_nil_iff.1 ?_, fun h c hc =>
    h c ((List.dropWhile_sublist _).subset hc)⟩
  rw [← List.dropWhile_eq_nil_iff, List.dropWhile_idempotent] at h
  exact h

theorem splitOnP_filter_eq_nil (p : Char → Bool) : ∀ l : List Char,
    (l.splitOnP p).filter (· ≠ []) = [] ↔ ∀ c ∈ l, p c
  | [] => by simp
  | c :: l => by
    have ih := splitOnP_filter_eq_nil p l
    rw [List.splitOnP_cons_eq_if_modifyHead]
    by_cases hc : p c
    · rw [if_pos hc, List.filter_cons_of_neg (by simp), ih]
      simp [hc]
    · obtain ⟨w, ws, hs⟩ := List.exists_cons_of_ne_nil (List.splitOnP_ne_nil p l)
      rw [hs]
      simp [hc]

theorem splitWhitespace_eq_nil {s : String} : splitWhitespace s = [] ↔ trim s = "" := by
  rw [trim_eq_empty]
  exact splitOnP_filter_eq_nil isWhitespace s.toList

/-- The places where the pattern starts, each past the match before it; `skip` characters of that
match are still ahead and `i` is the current place. -/
def matchIndices (pattern : List Char) : (skip i : ℕ) → List Char → List ℕ
  | _, _, [] => []
  | skip + 1, i, _ :: cs => matchIndices pattern skip (i + 1) cs
  | 0, i, c :: cs =>
    if pattern.isPrefixOf (c :: cs) then i :: matchIndices pattern (pattern.length - 1) (i + 1) cs
    else matchIndices pattern 0 (i + 1) cs

def isAsciiAlphanumeric (c : Char) : Bool :=
  ('a' ≤ c && c ≤ 'z') || ('A' ≤ c && c ≤ 'Z') || ('0' ≤ c && c ≤ '9')

def isTokenChar (c : Char) : Bool := isAsciiAlphanumeric c || c = '-' || c = '_'

/-- `@mention` stands at `start`, with no token character before or after it. -/
def matchesAt (content mention : List Char) (start : ℕ) : Bool :=
  let pattern := '@' :: mention
  pattern.isPrefixOf (content.drop start) &&
    (content.take start).getLast?.all (fun c => !isTokenChar c) &&
    (content.drop (start + pattern.length)).head?.all fun c => !isTokenChar c

def containsMention (lower : String → String) (content mention : String)
    (candidates : List String) : Bool :=
  let content := (lower content).toList
  let mention := lower mention
  if mention = "" then false
  else
    let longer := (candidates.map lower).filter fun name =>
      mention.utf8ByteSize < name.utf8ByteSize
    (matchIndices ('@' :: mention.toList) 0 0 content).any fun start =>
      matchesAt content mention.toList start &&
        !longer.any fun name => matchesAt content name.toList start

end Choruz
