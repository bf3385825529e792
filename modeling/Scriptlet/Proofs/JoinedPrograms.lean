import Scriptlet.Proofs.Joining
import Scriptlet.Proofs.Cursors
import Scriptlet.Proofs.ParseEnds

/-!
# Two programs joined by a line feed

Two texts that each read as a program, joined by a line feed, read as the statements of the
first followed by those of the second, whose offsets move past the first text and the line feed
(`Program.parseAt_join`).

Below the top level, a program is read by `Parse.restOfProgram`: separators, then statements up
to the end of input. The first text is a piece whose end the joined text replaces by the line
feed and the second text: where the first text read alone ends, the joined text goes on as the
rest of a program, with the statements of the first already read (`Seam.goes_on`). The second
text is a piece at the end of the joined text, read there as alone with its offsets moved
(`Seam.reads`).
-/

set_option autoImplicit false

namespace Scriptlet.Syntax

namespace Parse

variable {α : Type}

/-- Every list of tokens is a run of tokens of kinds in `ks`, then tokens that start with one of
another kind. -/
theorem exists_run (ks : List TokenKind) :
    ∀ us : List Token, ∃ run rest, us = run ++ rest ∧ (∀ u ∈ run, u.kind ∈ ks) ∧
      ∀ u ∈ rest.head?, u.kind ∉ ks
  | [] => ⟨[], [], rfl, nofun, nofun⟩
  | u :: us => by
    by_cases hu : u.kind ∈ ks
    · obtain ⟨run, rest, rfl, hrun, hrest⟩ := exists_run ks us
      refine ⟨u :: run, rest, rfl, ?_, hrest⟩
      simpa [hu] using hrun
    · exact ⟨[], u :: us, rfl, nofun, by simpa using hu⟩

theorem headD_not_mem {ks : List TokenKind} {rest : List Token} {last : Token}
    (hrest : ∀ u ∈ rest.head?, u.kind ∉ ks) (hlast : last.kind ∉ ks) :
    (rest.headD last).kind ∉ ks := by
  cases rest with
  | nil => exact hlast
  | cons u rest => exact hrest u rfl

variable [NestingLimit]

/-- The rest of a program at level `d`: separators, then statements up to the end of input, after
`acc`, the statements read so far, last first. -/
def restOfProgram (fuel d : Nat) (acc : List Stmt) : Parse (List Stmt) :=
  skip (d + 1) separators >>= fun _ => statements fuel d .eof acc

/-- Skipping forgets the skipped tokens in front of it. -/
theorem exec_skip_prefix_bind {ks : List TokenKind} {d : Nat} (h : d + 8 ≤ nestingLimit)
    {seps ts : List Token} {last : Token} (hseps : ∀ u ∈ seps, u.kind ∈ ks) (hlast : last.kind ∉ ks)
    (f : Unit → Parse α) :
    exec (skip d ks >>= f) (Cursor.onto (seps ++ ts) last) =
      exec (skip d ks >>= f) (Cursor.onto ts last) := by
  obtain ⟨run, rest, rfl, hrun, hrest⟩ := exists_run ks ts
  have hstop := headD_not_mem hrest hlast
  rw [← List.append_assoc, exec_skip_bind (seps ++ run) _ hstop h, exec_skip_bind run hrun hstop h]
  simpa [or_imp, forall_and] using And.intro hseps hrun

/-- A check of a level that only some tokens make. -/
theorem exec_ite_reach_bind {p : Prop} [Decidable p] (n : Nat) (x : Parse α) (c : Cursor) :
    exec (if p then reach n >>= fun _ => x else x) c =
      if p ∧ nestingLimit < n then .error .tooDeep else exec x c := by
  by_cases hp : p
  · by_cases hn : nestingLimit < n
    · simp only [if_pos hp, if_pos (And.intro hp hn), exec_bind, exec_reach, if_pos hn]
    · simp only [if_pos hp, if_neg (fun h : p ∧ _ => hn h.2), exec_reach_bind (Nat.le_of_not_lt hn)]
  · simp only [if_neg hp, if_neg (fun h : p ∧ _ => hp h.1)]

/-- The statements read so far are put in front of the statements read now, whatever they are. -/
theorem statements_acc {stop : TokenKind} :
    ∀ (fuel d : Nat) (acc₁ acc₂ : List Stmt) {c c' : Cursor} {r : List Stmt},
      exec (statements fuel d stop acc₁) c = .ok (r, c') →
      ∃ r₀, r = acc₁.reverse ++ r₀ ∧
        exec (statements fuel d stop acc₂) c = .ok (acc₂.reverse ++ r₀, c')
  | 0, _, _, _, _, _, _, h => by simp only [Parse.statements] at h; cases h
  | fuel + 1, d, acc₁, acc₂, c, c', r, h => by
    simp only [statements, exec_current_bind] at h ⊢
    by_cases hc : c.current.kind = stop
    · rw [if_pos hc] at h ⊢
      obtain ⟨rfl, rfl⟩ := Prod.mk.inj (Except.ok.inj h)
      exact ⟨[], by simp, by simp⟩
    rw [if_neg hc] at h ⊢
    obtain ⟨s, c₁, hs, h⟩ := exec_bind_eq_ok h
    rw [exec_bind_ok hs]
    simp only [exec_current_bind] at h ⊢
    by_cases hc₁ : c₁.current.kind = stop
    · rw [if_pos hc₁] at h ⊢
      obtain ⟨rfl, rfl⟩ := Prod.mk.inj (Except.ok.inj h)
      exact ⟨[s], by simp, by simp⟩
    rw [if_neg hc₁, exec_ite_reach_bind] at h ⊢
    by_cases hr : c₁.current.kind ≠ .newLine ∧ nestingLimit < d + 1
    · rw [if_pos hr] at h
      cases h
    rw [if_neg hr] at h ⊢
    by_cases hsep : c₁.current.kind = .newLine ∨ c₁.current.kind = .semicolon
    · rw [if_pos hsep] at h ⊢
      -- after a separator both go on, the statement just read added to what they hold
      obtain ⟨_, c₂, hsk, h⟩ := exec_bind_eq_ok h
      rw [exec_bind_ok hsk]
      obtain ⟨r₀, rfl, h'⟩ := statements_acc fuel d (s :: acc₁) (s :: acc₂) h
      exact ⟨s :: r₀, by simp, by simpa using h'⟩
    · rw [if_neg hsep] at h
      exact absurd h failAt_ne_ok

theorem restOfProgram_acc {fuel d : Nat} (acc : List Stmt) {c c' : Cursor} {r : List Stmt}
    (h : exec (restOfProgram fuel d []) c = .ok (r, c')) :
    exec (restOfProgram fuel d acc) c = .ok (acc.reverse ++ r, c') := by
  obtain ⟨_, c₁, hsk, h⟩ := exec_bind_eq_ok h
  obtain ⟨r₀, rfl, h'⟩ := statements_acc fuel d [] acc h
  rw [restOfProgram, exec_bind_ok hsk, h']

theorem reach_of_le {n : Nat} (h : n ≤ nestingLimit) : reach n = pure () := by
  rw [reach, if_neg (Nat.not_lt.mpr h)]

/-- A program is the rest of a program one level down, when every level it checks is in reach. -/
theorem exec_topLevel_succ {q : Nat} (hq : q + 9 ≤ nestingLimit) (fuel : Nat) (c : Cursor) :
    exec (topLevel (fuel + 1) q) c = exec (restOfProgram fuel (q + 1) []) c := by
  have hc := Token.readDepth_le c.current
  simp (disch := omega) only [topLevel, block, exec_current_bind, reach_of_le, pure_bind,
    Bool.false_eq_true, if_false, bind_pure]
  rfl

end Parse

theorem Token.map_shift_zero (ts : List Token) : ts.map (Token.shift 0) = ts := by
  rw [show Token.shift 0 = id from funext Token.shift_zero, List.map_id]

namespace Seam

variable {σ : Seam}

variable [NestingLimit]

/-- Read alone, the piece is the rest of a program up to its end, where the joined text goes on
with a line feed: there the joined text goes on as the rest of a program, with the statements of
the piece already read, and with at least the fuel the piece did not use. The induction is on the
fuel of the piece, one statement and its separators a round. -/
theorem goes_on (h0 : σ.offset = 0) (hnl : σ.next.kind = .newLine) {d : Nat}
    (hd : d + 9 ≤ nestingLimit) :
    ∀ (fuel fuel' : Nat) (acc : List Stmt) (us : List Token) {res : List Stmt} {c' : Cursor},
      fuel ≤ fuel' → (∀ t ∈ us, t.kind ≠ .eof) →
      Parse.exec (Parse.restOfProgram fuel d acc) (Cursor.onto us σ.endAlone) = .ok (res, c') →
      ∃ g, fuel' - fuel ≤ g ∧
        Parse.exec (Parse.restOfProgram fuel' d acc) (Cursor.onto (us ++ σ.more) σ.endJoined) =
          Parse.exec (Parse.restOfProgram g d res.reverse) (Cursor.onto σ.more σ.endJoined)
  | 0, _, _, _, _, _, _, _, h => by
    obtain ⟨_, _, -, h⟩ := Parse.exec_bind_eq_ok h
    simp only [Parse.statements] at h
    cases h
  | m + 1, fuel', acc, us, res, c', hle, hus, h => by
    obtain ⟨m', rfl⟩ : ∃ m', fuel' = m' + 1 := ⟨fuel' - 1, by omega⟩
    have hsep : TokenKind.eof ∉ separators := by decide
    have hreach : ¬ nestingLimit < d + 1 := by omega
    obtain ⟨run, rest, rfl, hrun, hrest⟩ := Parse.exists_run separators us
    have hA := Parse.headD_not_mem hrest (σ.endAlone_kind ▸ hsep)
    unfold Parse.restOfProgram at h ⊢
    rw [Parse.exec_skip_bind run hrun hA (by omega)] at h
    rw [List.append_assoc, Parse.exec_skip_prefix_bind (by omega) hrun (σ.endJoined_kind ▸ hsep)]
    cases rest with
    | nil =>
      -- the piece ends after the separators: it holds the statements read so far
      simp only [Parse.statements, Parse.exec_current_bind, Cursor.onto_current, List.headD_nil,
        σ.endAlone_kind, if_true, Parse.exec_pure, Except.ok.injEq, Prod.mk.injEq] at h
      obtain ⟨rfl, -⟩ := h
      exact ⟨m' + 1, by omega, by rw [List.reverse_reverse, List.nil_append]⟩
    | cons u rest =>
      have hus' : ∀ t ∈ u :: rest, t.kind ≠ .eof := fun t ht => hus t (List.mem_append_right _ ht)
      have hue : u.kind ≠ .eof := hus' u List.mem_cons_self
      rw [List.cons_append, Parse.exec_skip_stop_bind
        (show ((u :: (rest ++ σ.more)).headD σ.endJoined).kind ∉ separators from hA) (by omega)]
      simp only [Parse.statements, Parse.exec_current_bind, Cursor.onto_current, List.headD_cons,
        if_neg hue] at h ⊢
      obtain ⟨s, c₁, hs, h⟩ := Parse.exec_bind_eq_ok h
      have hj : σ.Joins (Cursor.onto (u :: rest) σ.endAlone)
          (Cursor.onto (u :: (rest ++ σ.more)) σ.endJoined) :=
        ⟨u :: rest, hus', rfl, by rw [h0, Token.map_shift_zero]; rfl⟩
      obtain ⟨_, c₂, hs', rfl, hj₁⟩ := (σ.reads (show m ≤ m' by omega)).statement (d + 1) _ _ hj s c₁ hs
      rw [Parse.exec_bind_ok hs', h0, Stmt.shift_zero]
      rcases hj₁.cases with ⟨v, vs, hv, hvs, rfl, rfl⟩ | ⟨rfl, rfl⟩
      · -- inside the piece both read the same separator and go on
        rw [h0, Token.shift_zero, Token.map_shift_zero]
        simp only [Parse.exec_current_bind, Cursor.onto_current, List.headD_cons, if_neg hv,
          Parse.exec_ite_reach_bind, if_neg (fun hr : _ ∧ _ => hreach hr.2)] at h ⊢
        by_cases hsv : v.kind = .newLine ∨ v.kind = .semicolon
        · rw [if_pos hsv] at h ⊢
          obtain ⟨g, hg, heq⟩ := goes_on h0 hnl hd m m' (s :: acc) (v :: vs) (by omega)
            (fun t ht => (List.mem_cons.mp ht).elim (· ▸ hv) (hvs t)) h
          exact ⟨g, by omega, heq⟩
        · rw [if_neg hsv] at h
          exact absurd h Parse.failAt_ne_ok
      · -- the piece ends after the statement, where the joined text reads its line feed
        simp only [Parse.exec_current_bind, Cursor.onto_current, List.headD_nil, σ.endAlone_kind,
          if_true, Parse.exec_pure, Except.ok.injEq, Prod.mk.injEq] at h
        obtain ⟨rfl, -⟩ := h
        have hn : (σ.more.headD σ.endJoined).kind = .newLine := hnl
        refine ⟨m', by omega, ?_⟩
        simp only [Parse.exec_current_bind, Cursor.onto_current, hn, List.reverse_reverse,
          Parse.exec_ite_reach_bind, reduceCtorEq, if_false, true_or, if_true]
        rfl

/-- A piece at the end of the longer text is read there as the rest of a program as it is
alone, its statements moved. -/
theorem restOfProgram_alike (hn : σ.next.kind = .eof) {d fuel fuel' : Nat}
    (hle : fuel ≤ fuel') {c₁ c₂ : Cursor} (hj : σ.Joins c₁ c₂) :
    σ.Alike (fun ss ss' => ss' = ss.map (Stmt.shift σ.offset))
      (Parse.exec (Parse.restOfProgram fuel d []) c₁)
      (Parse.exec (Parse.restOfProgram fuel' d []) c₂) :=
  Joins.skip_bind (by decide) (d + 1)
    (fun _ _ hj => (σ.reads hle).statements d .eof [] _ _ (.inr ⟨rfl, hn⟩) hj)
    (fun hmem => absurd (hn ▸ hmem) (by decide)) hj

end Seam

theorem Cursor.start_onto (ts : List Token) (last : Token) :
    Cursor.start ⟨ts, .ok last⟩ = .ok (Cursor.onto ts last) := by
  cases ts <;> rfl

theorem parseFuel_eq_succ (n : Nat) : parseFuel n = (16 * n + 15) + 1 := by
  unfold parseFuel
  omega

variable [NestingLimit]

/-- A text that reads as a program is scanned to its end, and its tokens read as that program. -/
theorem Program.parseAt_scanned {q : Nat} {src : String} {p : Program}
    (h : Program.parseAt q src = .ok p) :
    ∃ ts e, TokenStream.ofString src = ⟨ts, .ok e⟩ ∧ e.kind = .eof ∧ (∀ t ∈ ts, t.kind ≠ .eof) ∧
      ∃ c', Parse.exec (Parse.topLevel (parseFuel ts.length) q) (Cursor.onto ts e) = .ok (p, c') := by
  obtain ⟨hts, hfin⟩ := TokenStream.ofString_scanned src
  have hne : ∀ t ∈ (TokenStream.ofString src).tokens, t.kind ≠ .eof := fun t ht =>
    (hts t ht).elim fun _ hl => hl.kind_ne_eof
  obtain ⟨e, he⟩ := Program.ofTokens_finish hne h
  obtain ⟨c, c', hstart, hrun⟩ := Program.ofTokens_eq_ok h
  generalize TokenStream.ofString src = s at hne hfin he hstart hrun ⊢
  obtain ⟨ts, fin⟩ := s
  subst he
  rw [Cursor.start_onto, Except.ok.injEq] at hstart
  subst hstart
  exact ⟨ts, e, rfl, hfin e rfl, hne, c', hrun⟩

theorem Program.ofTokens_of_exec {ts : List Token} {e : Token} {q : Nat} {p : Program}
    {c' : Cursor} (h : Parse.exec (Parse.topLevel (parseFuel ts.length) q) (Cursor.onto ts e) =
      .ok (p, c')) : Program.ofTokens ⟨ts, .ok e⟩ q = .ok p := by
  simp only [Program.ofTokens, Cursor.start_onto]
  change (Parse.exec (Parse.topLevel _ q) (Cursor.onto ts e) >>= fun x => pure x.1 :
    Except ParseError Program) = .ok p
  rw [h]
  rfl

/-- Two texts that read as programs at a level nine below the limit, joined by a line feed, read
as the first program's statements followed by the second's, moved past the first text and the
line feed. -/
theorem Program.parseAt_join {q : Nat} (hq : q + 10 ≤ nestingLimit) {src₁ src₂ : String}
    {p₁ p₂ : Program} (h₁ : Program.parseAt q src₁ = .ok p₁)
    (h₂ : Program.parseAt q src₂ = .ok p₂) :
    Program.parseAt q (src₁ ++ "\n" ++ src₂) = .ok (p₁ ++ p₂.shift (src₁.length + 1)) := by
  obtain ⟨ts₁, e₁, hs₁, he₁, hts₁, c₁, hrun₁⟩ := Program.parseAt_scanned h₁
  obtain ⟨ts₂, e₂, hs₂, he₂, hts₂, c₂, hrun₂⟩ := Program.parseAt_scanned h₂
  -- the first text is a piece followed by the line feed and the second text moved
  let σ₁ : Seam := ⟨0, ⟨.newLine, "\n", src₁.length, none⟩ ::
      ts₂.map (Token.shift (src₁.length + 1)), e₁, e₂.shift (src₁.length + 1), he₁, he₂,
      .inr rfl⟩
  -- the second text is a piece at the end of the joined text
  let σ₂ : Seam := ⟨src₁.length + 1, [], e₂, e₂.shift (src₁.length + 1), he₂, he₂, .inl he₂⟩
  rw [parseFuel_eq_succ, Parse.exec_topLevel_succ (by omega)] at hrun₁ hrun₂
  -- where the first text ends, the joined text goes on after the line feed
  obtain ⟨g, hg, hgo⟩ := Seam.goes_on (σ := σ₁) rfl rfl (by omega) _
    (16 * (ts₁ ++ σ₁.more).length + 15) [] ts₁
    (by simp only [List.length_append]; omega) hts₁ hrun₁
  have hmore : σ₁.more.length = ts₂.length + 1 := by simp [σ₁]
  have hg₂ : 16 * ts₂.length + 15 ≤ g := by
    simp only [List.length_append, hmore] at hg
    omega
  -- and reads the second text as alone
  obtain ⟨_, c₃, hr, rfl, -⟩ := Seam.restOfProgram_alike (σ := σ₂) he₂ hg₂
    ⟨ts₂, hts₂, rfl, rfl⟩ p₂ c₂ hrun₂
  rw [List.append_nil] at hr
  have hjoin : Parse.exec (Parse.restOfProgram (16 * (ts₁ ++ σ₁.more).length + 15) (q + 1) [])
      (Cursor.onto (ts₁ ++ σ₁.more) σ₁.endJoined) =
        .ok (p₁ ++ p₂.shift (src₁.length + 1), c₃) := by
    rw [hgo]
    show Parse.exec (Parse.restOfProgram g (q + 1) p₁.reverse)
      (Cursor.onto ([⟨.newLine, "\n", src₁.length, none⟩] ++
        ts₂.map (Token.shift (src₁.length + 1))) σ₁.endJoined) = _
    unfold Parse.restOfProgram
    rw [Parse.exec_skip_prefix_bind (by omega) (by simp [separators]) (σ₁.endJoined_kind ▸ by decide)]
    rw [← Parse.restOfProgram, Parse.restOfProgram_acc p₁.reverse hr, List.reverse_reverse,
      Program.shift, Stmt.shiftList_eq_map]
  have hrun : Parse.exec (Parse.topLevel (parseFuel (ts₁ ++ σ₁.more).length) q)
      (Cursor.onto (ts₁ ++ σ₁.more) σ₁.endJoined) = .ok (p₁ ++ p₂.shift (src₁.length + 1), c₃) := by
    rw [parseFuel_eq_succ, Parse.exec_topLevel_succ (by omega)]
    exact hjoin
  unfold Program.parseAt
  rw [TokenStream.ofString_join hs₁ hs₂]
  exact Program.ofTokens_of_exec hrun

end Scriptlet.Syntax
