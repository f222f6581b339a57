import PullIter.Bytes

/-!
# Words

The contents of a block of storage are 64-bit words.  Only the words up to the last one
that was stored are written down; every word behind them is zero.

## Main definitions

* `Words` — the contents of a block.
* `Words.peek`, `Words.poke` — load and store a word.
* `Words.bytes` — the bytes of the first words.

## Main results

* `peek_poke_self`, `peek_poke_of_ne` — a stored word is loaded again, and the others stay.
-/

namespace PullIter

/-- The contents of a block of storage. -/
abbrev Words := List UInt64

namespace Words

/-- The word at an index; zero behind the last. -/
def peek : Words → Nat → UInt64
  | [], _ => 0
  | word :: _, 0 => word
  | _ :: words, index + 1 => peek words index

/-- Store a word at an index. -/
def poke : Words → Nat → UInt64 → Words
  | [], 0, word => [word]
  | [], index + 1, word => 0 :: poke [] index word
  | _ :: words, 0, word => word :: words
  | old :: words, index + 1, word => old :: poke words index word

/-- The first `size` bytes of the words. -/
def bytes (words : Words) (size : Nat) : List UInt8 :=
  ((List.range ((size + 7) / 8)).flatMap fun index => toBytes 8 (words.peek index).toNat).take size

@[simp] theorem peek_nil (index : Nat) : peek [] index = 0 := by cases index <;> rfl

@[simp] theorem peek_cons_zero (word : UInt64) (words : Words) : peek (word :: words) 0 = word := rfl

@[simp] theorem peek_cons_succ (word : UInt64) (words : Words) (index : Nat) :
    peek (word :: words) (index + 1) = peek words index := rfl

@[simp] theorem poke_cons_zero (old word : UInt64) (words : Words) :
    poke (old :: words) 0 word = word :: words := rfl

@[simp] theorem poke_cons_succ (old word : UInt64) (words : Words) (index : Nat) :
    poke (old :: words) (index + 1) word = old :: poke words index word := rfl

/-- A stored word is loaded again. -/
@[simp] theorem peek_poke_self (words : Words) (index : Nat) (word : UInt64) :
    (words.poke index word).peek index = word := by
  induction index generalizing words with
  | zero => cases words <;> rfl
  | succ index ih => cases words with
    | nil => exact ih []
    | cons _ words => exact ih words

/-- A stored word leaves the others alone. -/
theorem peek_poke_of_ne {index other : Nat} (h : other ≠ index) (words : Words) (word : UInt64) :
    (words.poke index word).peek other = words.peek other := by
  induction index generalizing words other with
  | zero => cases other with
    | zero => exact absurd rfl h
    | succ other => cases words <;> simp [poke]
  | succ index ih => cases other with
    | zero => cases words <;> rfl
    | succ other =>
      have hne : other ≠ index := fun he => h (congrArg (· + 1) he)
      cases words with
      | nil => exact (ih hne []).trans (peek_nil other)
      | cons _ words => exact ih hne words

end Words

end PullIter
