import PlaneFigures.Proofs.Draws

/-!
# Choice of a kind

A kind is chosen by a word, without bias. The words that select an index are those for which five
times the word falls into one of five windows of equal width, and a window of `5 * 2 ^ 61` numbers
has `2 ^ 61` multiples of five. They make up a range of words of that length. All other words are
rejected, and the choice goes on with the next word. It ends at the first zero after the listed words
at the latest, because the zero word is accepted.
-/

namespace PlaneFigures

namespace Words

variable {β : Type} {accept : UInt64 → Option β} (zero : (accept 0).isSome)

def word (w : Words) (n : ℕ) : UInt64 := w.pending.getD n 0

theorem next_eq (w : Words) : w.next = (w.word 0, w.skip 1) := by
  obtain ⟨pending, used⟩ := w
  cases pending <;> rfl

theorem nextAccepted_eq (w : Words) :
    w.nextAccepted accept zero =
      match accept w.next.1 with
      | some b => (b, w.next.2)
      | none => w.next.2.nextAccepted accept zero := by
  obtain ⟨pending, used⟩ := w
  cases pending with
  | nil =>
    obtain ⟨b, hb⟩ := Option.isSome_iff_exists.1 zero
    rw [nextAccepted, searchFrom]
    simp only [next, hb, Option.get_some]
  | cons head rest =>
    rw [nextAccepted, searchFrom]
    rfl

/-- The search stops at the first word that is accepted, which is one of the listed words or the
first zero after them. -/
theorem exists_nextAccepted (w : Words) :
    ∃ n b, n ≤ w.pending.length ∧ (∀ i < n, accept (w.word i) = none) ∧
      accept (w.word n) = some b ∧ w.nextAccepted accept zero = (b, w.skip (n + 1)) := by
  obtain ⟨pending, used⟩ := w
  induction pending generalizing used with
  | nil =>
    obtain ⟨b, hb⟩ := Option.isSome_iff_exists.1 zero
    have hfirst : accept (word ⟨[], used⟩ 0) = some b := hb
    exact ⟨0, b, le_rfl, nofun, hfirst, by rw [nextAccepted_eq, next_eq, hfirst]⟩
  | cons head rest ih =>
    have hword : word ⟨head :: rest, used⟩ 0 = head := rfl
    cases hfirst : accept head with
    | some b =>
      exact ⟨0, b, Nat.zero_le _, nofun, hfirst, by rw [nextAccepted_eq, next_eq, hword, hfirst]⟩
    | none =>
      obtain ⟨n, b, hn, hrejected, haccepted, hrun⟩ := ih (used + 1)
      refine ⟨n + 1, b, Nat.succ_le_succ hn, ?_, haccepted, ?_⟩
      · intro i hi
        cases i with
        | zero => exact hfirst
        | succ i => exact hrejected i (Nat.lt_of_succ_lt_succ hi)
      · have hskip : skip ⟨head :: rest, used⟩ 1 = ⟨rest, used + 1⟩ := rfl
        rw [nextAccepted_eq, next_eq, hword, hfirst, Nat.add_comm (n + 1) 1, ← skip_skip, hskip]
        exact hrun

end Words

namespace Kind

theorem index_eq_some_iff_window {word : UInt64} {i : Fin 5} :
    index? word = some i ↔
      i * 2 ^ 64 ≤ word.toNat * 5 ∧ word.toNat * 5 < i * 2 ^ 64 + 5 * 2 ^ 61 := by
  rw [index?]
  simp only [Option.ite_none_right_eq_some, Option.some_inj, Fin.ext_iff, UInt64.size]
  generalize word.toNat * 5 = product
  omega

def leastWord (i : Fin 5) : ℕ := (i * 2 ^ 64 + 4) / 5

theorem index_eq_some_iff_range {word : UInt64} {i : Fin 5} :
    index? word = some i ↔ leastWord i ≤ word.toNat ∧ word.toNat < leastWord i + 2 ^ 61 := by
  rw [index_eq_some_iff_window, leastWord]
  omega

theorem index_eq_some_iff_halves {word : UInt64} {i : Fin 5} :
    index? word = some i ↔ word.toNat * 5 / 2 ^ 64 = i ∧
      word.toNat * 5 % 2 ^ 64 ≤ 0x9fffffffffffffff := by
  rw [index_eq_some_iff_window]
  generalize word.toNat * 5 = product
  omega

theorem ncard_range {low n : ℕ} (h : low + n ≤ 2 ^ 64) :
    {word : UInt64 | low ≤ word.toNat ∧ word.toNat < low + n}.ncard = n := by
  have himage : UInt64.toNat '' {word | low ≤ word.toNat ∧ word.toNat < low + n} =
      Finset.Ico low (low + n) := by
    ext m
    rw [Finset.coe_Ico, Set.mem_Ico]
    constructor
    · rintro ⟨word, hword, rfl⟩
      exact hword
    · intro hm
      have hword : (UInt64.ofNat m).toNat = m := UInt64.toNat_ofNat_of_lt' (hm.2.trans_le h)
      refine ⟨.ofNat m, ?_, hword⟩
      change low ≤ (UInt64.ofNat m).toNat ∧ (UInt64.ofNat m).toNat < low + n
      rwa [hword]
  rw [← Set.ncard_image_of_injective _ (fun _ _ => UInt64.toNat_inj.1), himage,
    Set.ncard_coe_finset, Nat.card_Ico, Nat.add_sub_cancel_left]

theorem ncard_index (i : Fin 5) : {word | index? word = some i}.ncard = 2 ^ 61 := by
  simp only [index_eq_some_iff_range]
  apply ncard_range
  rw [leastWord]
  omega

theorem ncard_univ_words : (Set.univ : Set UInt64).ncard = 2 ^ 64 := by
  have huniv : {word : UInt64 | 0 ≤ word.toNat ∧ word.toNat < 0 + 2 ^ 64} = Set.univ := by
    ext word
    have h := word.toNat_lt
    exact iff_of_true ⟨Nat.zero_le _, by omega⟩ trivial
  rw [← huniv, ncard_range (by norm_num)]

theorem ncard_rejected : {word | index? word = none}.ncard = 3 * 2 ^ 61 := by
  have hne : (Set.univ : Set UInt64).ncard ≠ 0 := by
    rw [ncard_univ_words]
    norm_num
  have hfinite : Finite UInt64 := Set.finite_univ_iff.1 (Set.finite_of_ncard_ne_zero hne)
  have hsum : Nat.card UInt64 = ∑ o, Nat.card {word // index? word = o} := by
    rw [← Nat.card_sigma]
    exact Nat.card_congr (Equiv.sigmaFiberEquiv index?).symm
  have hindex (i : Fin 5) : Nat.card {word // index? word = some i} = 2 ^ 61 := ncard_index i
  have hnone : Nat.card {word // index? word = none} = {word | index? word = none}.ncard := rfl
  rw [Fintype.sum_option, hnone, ← Set.ncard_univ, ncard_univ_words] at hsum
  simp only [hindex, Finset.sum_const, Finset.card_univ, Fintype.card_fin, smul_eq_mul] at hsum
  omega

theorem ofIndex_bijective : Function.Bijective ofIndex := by
  constructor
  · decide
  · intro k
    cases k
    · exact ⟨0, rfl⟩
    · exact ⟨1, rfl⟩
    · exact ⟨2, rfl⟩
    · exact ⟨3, rfl⟩
    · exact ⟨4, rfl⟩

theorem ncard_select (k : Kind) : {word | select? word = some k}.ncard = 2 ^ 61 := by
  obtain ⟨i, rfl⟩ := ofIndex_bijective.2 k
  rw [← ncard_index i]
  congr 1
  ext word
  exact ((Option.map_injective ofIndex_bijective.1).eq_iff (b := some i))

theorem ncard_select_none : {word | select? word = none}.ncard = 3 * 2 ^ 61 := by
  rw [← ncard_rejected]
  congr 1
  ext word
  exact Option.map_eq_none_iff

theorem exists_runFrom_draw (w : Words) :
    ∃ n k, n ≤ w.pending.length ∧ (∀ i < n, select? (w.word i) = none) ∧
      select? (w.word n) = some k ∧ draw.runFrom w = (.ok k, w.skip (n + 1)) := by
  have hzero : (select? 0).isSome := by decide
  obtain ⟨n, k, hn, hrejected, haccepted, hrun⟩ := w.exists_nextAccepted hzero
  refine ⟨n, k, hn, hrejected, haccepted, ?_⟩
  change (Except.ok (w.nextAccepted _ _).1, (w.nextAccepted _ _).2) = _
  rw [hrun]

end Kind

/-- The kind of a drawn figure is chosen without bias, and the choice ends. The index of a kind is the
upper half of five times a word, which is below five, if the lower half is at most
`0x9fffffffffffffff`. Every kind is selected by `2 ^ 61` words, and `3 * 2 ^ 61` words are rejected.
From any supply the choice rejects some of the listed words, if any, and stops at the next word at
the latest; the figure is then drawn from the rest of the supply. -/
theorem Sampler.runFrom_figure_unbiased (s : Sampler) (w : Words) :
    (∀ word : UInt64, word.toNat * 5 / 2 ^ 64 < 5 ∧
      ∀ i : Fin 5, Kind.index? word = some i ↔
        word.toNat * 5 / 2 ^ 64 = i ∧ word.toNat * 5 % 2 ^ 64 ≤ 0x9fffffffffffffff) ∧
    (∀ k, {word | Kind.select? word = some k}.ncard = 2 ^ 61) ∧
    {word | Kind.select? word = none}.ncard = 3 * 2 ^ 61 ∧
    ∃ n k, n ≤ w.pending.length ∧ (∀ i < n, Kind.select? (w.word i) = none) ∧
      Kind.select? (w.word n) = some k ∧ Kind.draw.runFrom w = (.ok k, w.skip (n + 1)) ∧
      s.figure.runFrom w = (s.figureOfKind k).runFrom (w.skip (n + 1)) := by
  refine ⟨fun word => ⟨?_, fun i => Kind.index_eq_some_iff_halves⟩, Kind.ncard_select,
    Kind.ncard_select_none, ?_⟩
  · have h := word.toNat_lt
    omega
  · obtain ⟨n, k, hn, hrejected, haccepted, hrun⟩ := Kind.exists_runFrom_draw w
    refine ⟨n, k, hn, hrejected, haccepted, hrun, ?_⟩
    rw [figure, Draw.runFrom_bind, hrun]

end PlaneFigures
