import Mathlib
import Scriptlet.Syntax.Parser

/-!
# Reading tokens, step by step

The parser's rules are built from a handful of steps: test the nesting level, look at the
current token, move to the next one, take a token of a given kind, skip separators. This file
says once what each step does on a cursor that stands on a known list of tokens, so that proofs
about the rules never unfold a step again.

`Cursor.onto ts last` stands on the first of `ts` with `last` ending the input; once `ts` is
used up it stands on `last` for good. Every step below is stated on such a cursor, under a bound
on the level it reaches.

## Main definitions

* `Parse.exec`: a parse run from a cursor.
* `Cursor.onto`: the cursor on a list of tokens.
-/

set_option autoImplicit false

namespace Scriptlet.Syntax

/-- The cursor on the first of `ts`, with the input ending in `last`; on `last` itself when `ts`
is empty. -/
def Cursor.onto (ts : List Token) (last : Token) : Cursor :=
  match ts with
  | t :: rest => ⟨t, rest, .ok last⟩
  | [] => ⟨last, [], .ok last⟩

@[simp] theorem Cursor.onto_current (ts : List Token) (last : Token) :
    (Cursor.onto ts last).current = ts.headD last := by
  cases ts <;> rfl

/-- Reading any token reaches at most seven levels below the rule that moves. -/
theorem Token.readDepth_le (t : Token) : t.readDepth ≤ 7 := by
  unfold Token.readDepth
  split <;> omega

/-- A token kind that stands for an operator is no end of input. -/
theorem BinOp.ne_eof_of_ofKind? {k : TokenKind} {op : BinOp} (h : BinOp.ofKind? k = some op) :
    k ≠ .eof := by
  rintro rfl
  cases h

/-- A token kind that stands for a sign is no end of input. -/
theorem Sign.ne_eof_of_ofKind? {k : TokenKind} {s : Sign} (h : Sign.ofKind? k = some s) :
    k ≠ .eof := by
  rintro rfl
  cases h

namespace Parse

/-! ## Running a parse -/

/-- A parse run from cursor `c`: the value with the cursor after it, or the error. -/
def exec {α : Type} (x : Parse α) (c : Cursor) : Except ParseError (α × Cursor) := x.run c

variable {α β : Type}

@[simp] theorem exec_pure (a : α) (c : Cursor) : exec (pure a) c = .ok (a, c) := rfl

@[simp] theorem exec_throw (e : ParseError) (c : Cursor) : exec (throw e : Parse α) c = .error e :=
  rfl

@[simp] theorem exec_get_bind (f : Cursor → Parse α) (c : Cursor) :
    exec (get >>= f) c = exec (f c) c := rfl

@[simp] theorem exec_set (c c' : Cursor) : exec (set c' : Parse Unit) c = .ok ((), c') := rfl

/-- A sequence runs its first part, then its second from where the first stopped. -/
theorem exec_bind (x : Parse α) (f : α → Parse β) (c : Cursor) :
    exec (x >>= f) c = match exec x c with
      | .ok (a, c') => exec (f a) c'
      | .error e => .error e := by
  simp only [exec, StateT.run_bind]
  rcases x.run c with e | ⟨a, c'⟩ <;> rfl

theorem exec_bind_ok {x : Parse α} {f : α → Parse β} {c c' : Cursor} {a : α}
    (h : exec x c = .ok (a, c')) : exec (x >>= f) c = exec (f a) c' := by
  rw [exec_bind, h]

theorem exec_bind_error {x : Parse α} {f : α → Parse β} {c : Cursor} {e : ParseError}
    (h : exec x c = .error e) : exec (x >>= f) c = .error e := by
  rw [exec_bind, h]

theorem exec_map (f : α → β) (x : Parse α) (c : Cursor) :
    exec (f <$> x) c = match exec x c with
      | .ok (a, c') => .ok (f a, c')
      | .error e => .error e := by
  simp only [exec, StateT.run_map]
  rcases x.run c with e | ⟨a, c'⟩ <;> rfl

theorem exec_map_ok {f : α → β} {x : Parse α} {c c' : Cursor} {a : α}
    (h : exec x c = .ok (a, c')) : exec (f <$> x) c = .ok (f a, c') := by
  rw [exec_map, h]

@[simp] theorem exec_current_bind (f : Token → Parse α) (c : Cursor) :
    exec (current >>= f) c = exec (f c.current) c := rfl

variable [NestingLimit]

theorem exec_reach (n : Nat) (c : Cursor) :
    exec (reach n) c = if nestingLimit < n then .error .tooDeep else .ok ((), c) := by
  unfold reach
  split <;> rfl

theorem exec_reach_of_le {n : Nat} (h : n ≤ nestingLimit) (c : Cursor) :
    exec (reach n) c = .ok ((), c) := by
  rw [exec_reach, if_neg (by omega)]

/-- A level that is in reach may be tested anywhere in a sequence. -/
theorem exec_reach_bind {n : Nat} (h : n ≤ nestingLimit) (f : Unit → Parse α) (c : Cursor) :
    exec (reach n >>= f) c = exec (f ()) c :=
  exec_bind_ok (exec_reach_of_le h c)

/-! ## Moving on a list of tokens -/

variable {ts : List Token} {t last : Token}

/-- Moving from a token steps onto the next, or onto the end once the list is used up. -/
theorem exec_advance {a : Nat} (h : a + 7 ≤ nestingLimit) :
    exec (advance a) (Cursor.onto (t :: ts) last) = .ok ((), Cursor.onto ts last) := by
  have hr : ∀ u : Token, a + u.readDepth ≤ nestingLimit := fun u => by
    have := u.readDepth_le
    omega
  cases ts with
  | nil => simp only [advance, Cursor.onto, exec_get_bind, exec_reach_bind (hr last), exec_set]
  | cons u us => simp only [advance, Cursor.onto, exec_get_bind, exec_reach_bind (hr u), exec_set]

theorem exec_advance_bind {a : Nat} (h : a + 7 ≤ nestingLimit) (f : Unit → Parse α) :
    exec (advance a >>= f) (Cursor.onto (t :: ts) last) = exec (f ()) (Cursor.onto ts last) :=
  exec_bind_ok (exec_advance h)

/-- Taking a token of the kind that stands under the cursor. -/
theorem exec_eat {d : Nat} {k : TokenKind} (hk : t.kind = k) (h : d + 8 ≤ nestingLimit) :
    exec (eat d k) (Cursor.onto (t :: ts) last) = .ok (t, Cursor.onto ts last) := by
  simp only [eat, exec_reach_bind (show d ≤ nestingLimit by omega), exec_current_bind,
    Cursor.onto_current, List.headD_cons, hk, if_true]
  rw [exec_advance_bind (by omega)]
  rfl

theorem exec_eat_bind {d : Nat} {k : TokenKind} (hk : t.kind = k) (h : d + 8 ≤ nestingLimit)
    (f : Token → Parse α) :
    exec (eat d k >>= f) (Cursor.onto (t :: ts) last) = exec (f t) (Cursor.onto ts last) :=
  exec_bind_ok (exec_eat hk h)

/-- A keyword is taken whatever it is; the rule has already looked at it. -/
theorem exec_keyword_bind {d : Nat} (h : d + 8 ≤ nestingLimit) (f : Unit → Parse α) :
    exec (keyword d >>= f) (Cursor.onto (t :: ts) last) = exec (f ()) (Cursor.onto ts last) := by
  refine exec_bind_ok ?_
  simp only [keyword, exec_reach_bind (show d + 2 ≤ nestingLimit by omega)]
  exact exec_advance (by omega)

/-- Skipping stops at once on a token of a kind not skipped. -/
theorem exec_skipFor_stop {ks : List TokenKind} {d fuel : Nat} {c : Cursor}
    (hk : c.current.kind ∉ ks) (h : d + 1 ≤ nestingLimit) :
    exec (skipFor ks d fuel) c = .ok ((), c) := by
  cases fuel with
  | zero => rfl
  | succ fuel =>
    have hc : ks.contains c.current.kind = false := by simpa using hk
    simp only [skipFor, exec_current_bind]
    split <;> simp only [exec_reach_bind h, hc, Bool.false_eq_true, if_false, exec_pure]

/-- Skipping moves past a run of tokens of skipped kinds, given a round for each. -/
theorem exec_skipFor {ks : List TokenKind} {d : Nat} (h : d + 8 ≤ nestingLimit) :
    ∀ (us : List Token) (fuel : Nat), us.length ≤ fuel → (∀ u ∈ us, u.kind ∈ ks) →
      (ts.headD last).kind ∉ ks →
      exec (skipFor ks d fuel) (Cursor.onto (us ++ ts) last) = .ok ((), Cursor.onto ts last)
  | [], fuel, _, _, hstop =>
    exec_skipFor_stop (by simpa using hstop) (by omega)
  | u :: us, fuel + 1, hlen, hus, hstop => by
    have hu : ks.contains u.kind = true := by simpa using hus u (by simp)
    have hrest := exec_skipFor h us fuel (by simp at hlen; omega)
      (fun u hu => hus u (by simp [hu])) hstop
    simp only [skipFor, exec_current_bind, Cursor.onto_current, List.cons_append,
      List.headD_cons, hu, if_true]
    split
    · rw [exec_reach_bind (by omega), exec_advance_bind (by omega), hrest]
    · rw [exec_advance_bind (by omega), hrest]

/-- `skip` moves past a run of tokens of skipped kinds, and stops at the first other token. -/
theorem exec_skip {ks : List TokenKind} {d : Nat} (us : List Token) (hus : ∀ u ∈ us, u.kind ∈ ks)
    (hstop : (ts.headD last).kind ∉ ks) (h : d + 8 ≤ nestingLimit) :
    exec (skip d ks) (Cursor.onto (us ++ ts) last) = .ok ((), Cursor.onto ts last) := by
  simp only [skip, exec_reach_bind (show d ≤ nestingLimit by omega), exec_get_bind]
  apply exec_skipFor h us _ _ hus hstop
  cases us with
  | nil => simp
  | cons u us =>
    simp only [List.cons_append, Cursor.onto, List.length_append, List.length_cons]
    omega

theorem exec_skip_bind {ks : List TokenKind} {d : Nat} (us : List Token)
    (hus : ∀ u ∈ us, u.kind ∈ ks) (hstop : (ts.headD last).kind ∉ ks) (h : d + 8 ≤ nestingLimit)
    (f : Unit → Parse α) :
    exec (skip d ks >>= f) (Cursor.onto (us ++ ts) last) = exec (f ()) (Cursor.onto ts last) :=
  exec_bind_ok (exec_skip us hus hstop h)

/-- Skipping one token of a skipped kind. -/
theorem exec_skip_cons_bind {ks : List TokenKind} {d : Nat} {u : Token} (hu : u.kind ∈ ks)
    (hstop : (ts.headD last).kind ∉ ks) (h : d + 8 ≤ nestingLimit) (f : Unit → Parse α) :
    exec (skip d ks >>= f) (Cursor.onto (u :: ts) last) = exec (f ()) (Cursor.onto ts last) :=
  exec_skip_bind [u] (by simpa using hu) hstop h f

/-- Skipping changes nothing when the token under the cursor is of no skipped kind. -/
theorem exec_skip_stop_bind {ks : List TokenKind} {d : Nat} (hstop : (ts.headD last).kind ∉ ks)
    (h : d + 8 ≤ nestingLimit) (f : Unit → Parse α) :
    exec (skip d ks >>= f) (Cursor.onto ts last) = exec (f ()) (Cursor.onto ts last) :=
  exec_skip_bind [] nofun hstop h f

end Parse

end Scriptlet.Syntax
