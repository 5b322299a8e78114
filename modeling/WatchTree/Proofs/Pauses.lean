import WatchTree.Proofs.PollLoop
import WatchTree.Proofs.Seconds

/-!
# Pauses after failures

The pause after a failure is brought between two bounds, whatever the multiplier makes of the pause
before it: what is no duration counts as too long (`PollConfig.nextBackoff_of_no_duration`), and the
lower bound has the last word (`PollConfig.nextBackoff_mem`), so chains of pauses stay in bounds
(`PollConfig.mem_pauses`). The setters keep the bounds in order and the multiplier at one or more
(`PollConfig.Configured.inOrder`).
-/

namespace WatchTree

variable {α : Type}

/-! ## Bounds -/

namespace PollConfig

variable (c : PollConfig)

/-- The seconds of the previous pause, times the multiplier. -/
def product (previous : Duration) : Binary64 :=
  .ofFloat (previous.toSeconds * c.multiplier.toFloat)

theorem clamp_mem (scaled : Option Duration) :
    c.clamp scaled ∈ Set.Icc c.minBackoff (max c.minBackoff c.maxBackoff) := by
  unfold clamp
  refine ⟨le_max_right _ _, ?_⟩
  rw [max_comm c.minBackoff]
  exact max_le_max_right _ (min_le_right _ _)

/-- What is no duration counts as too long. -/
theorem clamp_none : c.clamp none = max c.minBackoff c.maxBackoff := by
  show max (min c.maxBackoff c.maxBackoff) c.minBackoff = _
  rw [min_self, max_comm]

theorem nextBackoff_mem (previous : Option Duration) :
    c.nextBackoff previous ∈ Set.Icc c.minBackoff (max c.minBackoff c.maxBackoff) := by
  cases previous with
  | none => exact ⟨le_rfl, le_max_left _ _⟩
  | some previous => exact c.clamp_mem _

theorem nextBackoff_of_no_duration {previous : Duration}
    (h : (c.product previous).isFinite = false ∨ (c.product previous).value < 0 ∨
      2 ^ 64 ≤ (c.product previous).value) :
    c.nextBackoff (some previous) = max c.minBackoff c.maxBackoff := by
  show c.clamp (Duration.ofSeconds? (c.product previous)) = _
  rw [(Duration.ofSeconds?_eq_none_iff _).mpr h]
  exact c.clamp_none

theorem mem_pauses (n : Nat) : ∀ (previous : Option Duration), ∀ pause ∈ c.pauses previous n,
    pause ∈ Set.Icc c.minBackoff (max c.minBackoff c.maxBackoff) := by
  induction n with
  | zero => exact fun _ _ h => nomatch h
  | succ n ih =>
    intro previous pause hpause
    rcases List.mem_cons.mp hpause with rfl | hpause
    · exact c.nextBackoff_mem previous
    · exact ih _ pause hpause

/-! ### Setters -/

/-- Made from the default by setting what can be set. -/
inductive Configured : PollConfig → Prop
  | default : Configured {}
  | withDelay {c : PollConfig} (delay : Duration) : Configured c → Configured (c.withDelay delay)
  | withBackoff {c : PollConfig} (least greatest : Duration) :
      Configured c → Configured (c.withBackoff least greatest)
  | withMultiplier {c : PollConfig} (factor : Binary64) :
      Configured c → Configured (c.withMultiplier factor)

/-- The bounds are in order, and the multiplier is at least one. -/
structure InOrder (c : PollConfig) : Prop where
  bounds : c.minBackoff ≤ c.maxBackoff
  multiplier : c.multiplier.atLeastOne = true

theorem Configured.inOrder {c : PollConfig} (h : c.Configured) : c.InOrder := by
  induction h with
  | default => exact ⟨by decide, by decide⟩
  | withDelay delay _ ih => exact ⟨ih.bounds, ih.multiplier⟩
  | withBackoff least greatest _ ih => exact ⟨le_max_right greatest least, ih.multiplier⟩
  | withMultiplier factor _ ih =>
    refine ⟨ih.bounds, ?_⟩
    show (if factor.atLeastOne then factor else .one).atLeastOne = true
    split
    · assumption
    · decide

end PollConfig

/-! ## Pauses of a poller -/

/-- A poller that tells of a pause pauses after a success, or within the bounds. -/
theorem PollRound.pause_of_mem {c : PollConfig} {root : WatcherId} {rs : List (PollRound α)} :
    ∀ {k : Nat} {id : WatcherId} {pause : Duration}, .paused id pause ∈ allNews c root k rs →
      pause = c.delay ∨ pause ∈ Set.Icc c.minBackoff (max c.minBackoff c.maxBackoff) := by
  induction rs with
  | nil => exact fun h => nomatch h
  | cons r rs ih =>
    intro k id pause hmem
    rcases List.mem_append.mp hmem with hmem | hmem
    · have htold : .paused id pause ∈ r.result.told c root (c.backoffAfter k) := by
        rcases List.mem_cons.mp hmem with heq | hmem
        · exact nomatch heq
        · exact hmem
      unfold PollResult.told at htold
      split at htold
      · cases List.mem_singleton.mp htold
        exact .inl rfl
      · rcases List.mem_cons.mp htold with heq | hmem
        · exact nomatch heq
        · cases List.mem_singleton.mp hmem
          exact .inr (c.nextBackoff_mem _)
    · exact ih hmem

namespace Machine

variable [BEq α] {m₀ m m' : Machine α} {watcher : Name} {config : PollConfig}
  {script : Script α} {ending : PollEnd} {p : Polling α}
  {stk : List (Frame α)}

/-- What a poller tells from its start on, as far as pauses go. -/
theorem Above.pauses (hm : m = m₀.startPoller watcher config script ending)
    (h : m.Reached fun _ => True) (hc : m.control = .proceed) (hstk : m.stack = .polling p :: stk)
    (hl : Above stk m m') : ∃ news, m'.world.news = m.world.news ++ news ∧
      ∀ id pause, .paused id pause ∈ news → pause = config.delay ∨
        pause ∈ Set.Icc config.minBackoff (max config.minBackoff config.maxBackoff) := by
  obtain ⟨rfl, -, hbackoff, -⟩ := polling_of_startPoller hm hc hstk
  obtain ⟨rs, x, q, told, hrounds, hstage⟩ := hl.stage h.wellFormed hstk hbackoff
  have harrives := hrounds.arrives h.wellFormed hstk hbackoff
  refine ⟨PollRound.allNews p.config p.root 0 rs ++ told.toList.map PollNews.fetched, ?_, ?_⟩
  · rw [hstage.news (harrives.later.wellFormed h.wellFormed), harrives.news, List.append_assoc]
  · intro id pause hmem
    rcases List.mem_append.mp hmem with hmem | hmem
    · exact PollRound.pause_of_mem hmem
    · obtain ⟨known, -, heq⟩ := List.mem_map.mp hmem
      exact nomatch heq

end Machine

/-- What the setters make of the default: bounds in order, a multiplier of one or more, and pauses
between the bounds. -/
structure PollConfig.Ordered (c : PollConfig) : Prop where
  bounds : c.minBackoff ≤ c.maxBackoff
  isNumber : c.multiplier.isNaN = false
  positive : c.multiplier.negative = false
  grows : c.multiplier.isFinite = true → 1 ≤ c.multiplier.value
  pauses : ∀ previous n, ∀ pause ∈ c.pauses previous n, pause ∈ Set.Icc c.minBackoff c.maxBackoff

theorem PollConfig.Configured.ordered {c : PollConfig} (h : c.Configured) : c.Ordered := by
  obtain ⟨hbounds, hmultiplier⟩ := h.inOrder
  obtain ⟨hnan, hneg, hvalue⟩ := c.multiplier.atLeastOne_iff.mp hmultiplier
  refine ⟨hbounds, hnan, hneg, hvalue, fun previous n pause hpause => ?_⟩
  have hmem := c.mem_pauses n previous pause hpause
  rwa [max_eq_right hbounds] at hmem

/-- Where the pauses after failures lie. -/
structure PollConfig.Restrained (α : Type) [BEq α] (c : PollConfig) : Prop where
  clamped : ∀ scaled, c.clamp scaled ∈ Set.Icc c.minBackoff (max c.minBackoff c.maxBackoff)
  chained : ∀ previous n, ∀ pause ∈ c.pauses (some previous) n,
    pause ∈ Set.Icc c.minBackoff (max c.minBackoff c.maxBackoff)
  afresh : ∀ n, c.pauses none (n + 1) = c.minBackoff :: c.pauses (some c.minBackoff) n
  saturated : ∀ previous, (c.product previous).isFinite = false ∨ (c.product previous).value < 0 ∨
    2 ^ 64 ≤ (c.product previous).value →
    c.nextBackoff (some previous) = max c.minBackoff c.maxBackoff
  configured : c.Configured → c.Ordered
  poller : ∀ (m₀ m m' : Machine α) (watcher : Name) (script : Script α)
    (ending : PollEnd) (p : Polling α) (stk : List (Frame α)),
    m = m₀.startPoller watcher c script ending → m.Reached (fun _ => True) →
    m.control = .proceed → m.stack = .polling p :: stk → Machine.Above stk m m' →
    ∃ news, m'.world.news = m.world.news ++ news ∧
      ∀ id pause, .paused id pause ∈ news → pause = c.delay ∨
        pause ∈ Set.Icc c.minBackoff (max c.minBackoff c.maxBackoff)

/-- However the fields of a configuration were set and whatever comes of the multiplication, a pause
after a failure lies between the lower bound and the greater of the two, which it is if the product
is no duration; a chain that starts anew starts with the lower bound. What the setters make of the
default has its bounds in order and a multiplier of one or more, so its pauses lie between its
bounds. A poller makes no other pauses after failures. -/
theorem PollConfig.pauses_stay_in_bounds [BEq α] (c : PollConfig) : c.Restrained α where
  clamped := c.clamp_mem
  chained previous n := c.mem_pauses n (some previous)
  afresh _ := rfl
  saturated _ := c.nextBackoff_of_no_duration
  configured := Configured.ordered
  poller _ _ _ _ _ _ _ _ hm h hc hstk hl := hl.pauses hm h hc hstk

/-- From 100 ms the pauses double up to 350 ms. -/
example : (({} : PollConfig).withBackoff (.of 0 100000000) (.of 0 350000000)).pauses none 4 =
    [.of 0 100000000, .of 0 200000000, .of 0 350000000, .of 0 350000000] := by decide +kernel

/-! ### Bounds that are crossed, and multipliers out of order -/

/-- A lower bound of 5 s above an upper one of 2 s, and a multiplier that is NaN. -/
def PollConfig.crossed : PollConfig where
  minBackoff := .of 5 0
  maxBackoff := .of 2 0
  multiplier := ⟨0x7ff8000000000000⟩

def PollConfig.mended : PollConfig :=
  (({} : PollConfig).withBackoff (.of 5 0) (.of 2 0)).withMultiplier ⟨0x7ff8000000000000⟩

def PollConfig.negated : PollConfig where
  multiplier := ⟨0xbff0000000000000⟩

/-- A poller that fails twice and then fetches nothing, after so many steps. -/
def Machine.polledCrossed (n : Nat) : Machine Nat :=
  (pollable.world.start
    (.poll "r" .crossed
      [{ actions := [], reply := .failed "no" }, { actions := [], reply := .failed "no" },
        { actions := [], reply := .nothing }] .stop)).steps n

theorem PollConfig.pauses_stay_in_bounds_crossed :
    (∀ pause ∈ crossed.pauses none 3, pause = .of 5 0) ∧
      negated.nextBackoff (some (.of 1 0)) = .of 60 0 ∧
      1 ≤ mended.multiplier.value ∧
      (∀ pause ∈ mended.pauses (some (.of 9 0)) 3, pause = .of 5 0) ∧
      (Machine.polledCrossed 9).world.news.length = 8 ∧
      ∀ id pause, .paused id pause ∈ (Machine.polledCrossed 9).world.news →
        pause = .of 1 0 ∨ pause = .of 5 0 := by
  have honly : ∀ {c : PollConfig} {pause : Duration}, max c.minBackoff c.maxBackoff = c.minBackoff →
      pause ∈ Set.Icc c.minBackoff (max c.minBackoff c.maxBackoff) → pause = c.minBackoff :=
    fun hmax hmem => le_antisymm (hmem.2.trans_eq hmax) hmem.1
  have hmended : mended.Configured := .withMultiplier _ (.withBackoff _ _ .default)
  have hreached : (Machine.polledCrossed 0).Reached fun _ => True :=
    Machine.reached_pollable.begin_any (by decide +kernel)
  obtain ⟨p, hstk⟩ : ∃ p, (Machine.polledCrossed 0).stack = [.polling p, .holding 0] :=
    ⟨_, by with_unfolding_all rfl⟩
  have habove : Machine.Above [.holding 0] (Machine.polledCrossed 0) (Machine.polledCrossed 9) :=
    Machine.Above.steps .refl ⟨[_], hstk.symm⟩ (by decide +kernel)
  have hcrossed := pauses_stay_in_bounds (α := Nat) crossed
  have hordered := (pauses_stay_in_bounds (α := Nat) mended).configured hmended
  obtain ⟨news, hnews, hpauses⟩ := hcrossed.poller _ (Machine.polledCrossed 0) _ _ _ _ _ _ rfl
    hreached (by with_unfolding_all rfl) hstk habove
  have hnone : (Machine.polledCrossed 0).world.news = [] :=
    List.isEmpty_iff.mp (by decide +kernel)
  refine ⟨fun pause hmem => ?_, ?_, hordered.grows (by decide +kernel), fun pause hmem => ?_,
    by decide +kernel, fun id pause hmem => ?_⟩
  · rw [hcrossed.afresh] at hmem
    rcases List.mem_cons.mp hmem with rfl | hmem
    · rfl
    · exact honly (c := crossed) (by decide) (hcrossed.chained _ _ _ hmem)
  · refine (pauses_stay_in_bounds (α := Nat) negated).saturated (.of 1 0) (.inr (.inl ?_))
    rw [Binary64.value_neg_iff]
    decide +kernel
  · exact le_antisymm (hordered.pauses _ _ _ hmem).2 (hordered.pauses _ _ _ hmem).1
  · rw [hnews, hnone] at hmem
    exact (hpauses id pause hmem).imp_right (honly (c := crossed) (by decide))

end WatchTree
