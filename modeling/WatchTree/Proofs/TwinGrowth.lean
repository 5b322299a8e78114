import WatchTree.Proofs.Following
import WatchTree.Proofs.InnerSteps

/-!
# Twin worlds grow

An operation may add a watcher or issue an id. What is added outside is added to both worlds and
makes a new pair; what is added inside is added to the first one only. The pairing then has
everything that it had before.
-/

namespace WatchTree

variable {α : Type}

namespace Registry

theorem nextId_not_le (g : Registry α) : ¬ g.nextId.number ≤ g.lastId := Nat.not_succ_le_self _

/-- The next id is the first one above the last that was issued. -/
theorem nextId_new (g : Registry α) :
    g.lastId < g.nextId.number ∧ g.nextId.number ≤ g.reserve.lastId :=
  ⟨Nat.lt_succ_self _, Nat.le_refl _⟩

end Registry

namespace Pairing

/-! ## Larger pairings -/

section Larger

variable (G : Pairing)

/-- A further watcher outside. -/
def withPair (c c' : WatcherId) (hc : ∀ i', ¬ G.pair c i') (hc' : ∀ i, ¬ G.pair i c')
    (hout : ¬ G.inside c) : Pairing where
  pair i i' := G.pair i i' ∨ i = c ∧ i' = c'
  inside := G.inside
  listener := G.listener
  skipped := G.skipped
  pair_inj := by
    rintro i i' j j' (h | ⟨rfl, rfl⟩) (k | ⟨rfl, rfl⟩)
    · exact G.pair_inj h k
    · exact iff_of_false (fun heq => hc _ (heq ▸ h)) fun heq => hc' _ (heq ▸ h)
    · exact iff_of_false (fun heq => hc _ (heq ▸ k)) fun heq => hc' _ (heq ▸ k)
    · exact iff_of_true rfl rfl
  pair_apart := by
    rintro i i' (h | ⟨rfl, rfl⟩)
    · exact G.pair_apart h
    · exact hout
  listener_inj := G.listener_inj
  listener_apart := G.listener_apart

/-- A further watcher inside. -/
def withInside (c : WatcherId) (hc : ∀ i', ¬ G.pair c i') : Pairing where
  pair := G.pair
  inside i := G.inside i ∨ i = c
  listener := G.listener
  skipped := G.skipped
  pair_inj := G.pair_inj
  pair_apart h := not_or.mpr ⟨G.pair_apart h, fun heq => hc _ (heq ▸ h)⟩
  listener_inj := G.listener_inj
  listener_apart := G.listener_apart

/-- A further listener on a watcher outside. -/
def withListener (p : WatcherId) (l l' : ListenerId) (hl : ∀ k', ¬ G.listener p l k')
    (hl' : ∀ k, ¬ G.listener p k l') (hout : ¬ G.skipped p l) : Pairing where
  pair := G.pair
  inside := G.inside
  listener i k k' := G.listener i k k' ∨ i = p ∧ k = l ∧ k' = l'
  skipped := G.skipped
  pair_inj := G.pair_inj
  pair_apart := G.pair_apart
  listener_inj := by
    rintro i a a' b b' (h | ⟨rfl, rfl, rfl⟩) (k | ⟨heq, rfl, rfl⟩)
    · exact G.listener_inj h k
    · subst heq
      exact iff_of_false (fun heq => hl _ (heq ▸ h)) fun heq => hl' _ (heq ▸ h)
    · exact iff_of_false (fun heq => hl _ (heq ▸ k)) fun heq => hl' _ (heq ▸ k)
    · exact iff_of_true rfl rfl
  listener_apart := by
    rintro i k k' (h | ⟨rfl, rfl, rfl⟩)
    · exact G.listener_apart h
    · exact hout

/-- A further subscription of a watcher inside on one outside. -/
def withSkipped (p : WatcherId) (l : ListenerId) (hl : ∀ k', ¬ G.listener p l k') : Pairing where
  pair := G.pair
  inside := G.inside
  listener := G.listener
  skipped i k := G.skipped i k ∨ i = p ∧ k = l
  pair_inj := G.pair_inj
  pair_apart := G.pair_apart
  listener_inj := G.listener_inj
  listener_apart h := not_or.mpr ⟨G.listener_apart h, by rintro ⟨rfl, rfl⟩; exact hl _ h⟩

end Larger

/-! ## What is known remains so -/

variable {G H : Pairing} {below : Name → Bool} {i : WatcherId}

theorem Tasks.mono {t t' : Task α} (h : G.Tasks t t') (hle : G ≤ H) : H.Tasks t t' :=
  { h with watcher := hle.pair h.watcher, listener := hle.listener h.listener }

theorem Origins.mono {o o' : Origin α} (h : G.Origins below o o') (hle : G ≤ H) :
    H.Origins below o o' := by
  cases h with
  | root => exact .root
  | child hp hl hd ha => exact .child (hle.pair hp) (hle.listener hl) hd ha

/-- Some ids are used up. Those of the first registry that are new stand for nothing, for
subscriptions from inside, or for the same listeners as those of the second. -/
theorem Registries.widen {g g' : Registry α} (h : G.Registries below i g g') (hle : G ≤ H)
    {n n' : Nat} (hn : g.lastId ≤ n) (hn' : g'.lastId ≤ n')
    (hl : ∀ {l l'}, H.listener i l l' → G.listener i l l' ∨
      (g.lastId < l.number ∧ l.number ≤ n) ∧ g'.lastId < l'.number ∧ l'.number ≤ n')
    (hs : ∀ {l}, H.skipped i l → G.skipped i l ∨ g.lastId < l.number ∧ l.number ≤ n) :
    H.Registries below i { g with lastId := n } { g' with lastId := n' } where
  sound := h.sound.raise hn
  sound' := h.sound'.raise hn'
  entries := h.entries.mono hle
  records {l l'} hk := by
    rcases hl hk with hk | ⟨hnew, hnew'⟩
    · exact rel_imp (h.records hk) fun _ _ hr => hr.mono hle
    · show Option.Rel _ (g.find? l) (g'.find? l')
      rw [h.sound.find?_of_lt hnew.1, h.sound'.find?_of_lt hnew'.1]
      exact .none
  covered r hr := (h.covered r hr).imp hle.skipped fun ⟨l', hk⟩ => ⟨l', hle.listener hk⟩
  onto r hr := (h.onto r hr).imp fun _ hk => hle.listener hk
  issued hk := by
    rcases hl hk with hk | ⟨hnew, hnew'⟩
    · obtain ⟨hissued, hissued'⟩ := h.issued hk
      exact ⟨Nat.le_trans hissued hn, Nat.le_trans hissued' hn'⟩
    · exact ⟨hnew.2, hnew'.2⟩
  skipped_issued hk := by
    rcases hs hk with hk | hnew
    · exact Nat.le_trans (h.skipped_issued hk) hn
    · exact hnew.2
  skipped_records r hr hk := by
    rcases hs hk with hk | hnew
    · obtain ⟨c, hlis, hc, he⟩ := h.skipped_records r hr hk
      exact ⟨c, hlis, hle.inside hc, he⟩
    · exact absurd (h.sound.issued r hr) (Nat.not_le_of_lt hnew.1)

/-- No listener was added on this watcher. -/
theorem Registries.mono {g g' : Registry α} (h : G.Registries below i g g') (hle : G ≤ H)
    (hl : ∀ {l l'}, H.listener i l l' → G.listener i l l')
    (hs : ∀ {l}, H.skipped i l → G.skipped i l) : H.Registries below i g g' :=
  h.widen hle (Nat.le_refl _) (Nat.le_refl _) (fun hk => .inl (hl hk)) fun hk => .inl (hs hk)

theorem Watchers.mono {b b' : Watcher α} (h : G.Watchers below i b b') (hle : G ≤ H)
    (hl : ∀ {l l'}, H.listener i l l' → G.listener i l l')
    (hs : ∀ {l}, H.skipped i l → G.skipped i l) : H.Watchers below i b b' :=
  { h with origin := h.origin.mono hle, registry := h.registry.mono hle hl hs }

theorem InsideRegistration.mono {r : Registration α} (h : G.InsideRegistration below r)
    (hle : G ≤ H) : H.InsideRegistration below r where
  listener := by
    obtain ⟨_, listener, _⟩ := r
    cases h.listener with
    | observer ha => exact .observer ha
    | subscription hc => exact .subscription (hle.inside hc)
  disposal := h.disposal
  actions := h.actions

theorem InsideWatcher.mono {b : Watcher α} (h : G.InsideWatcher below b) (hle : G ≤ H) :
    H.InsideWatcher below b where
  origin := by
    obtain ⟨p, l, d, ho, hd, ha, hp⟩ := h.origin
    exact ⟨p, l, d, ho, hd, ha, hp.imp hle.inside hle.skipped⟩
  wakers := h.wakers
  records r hr := (h.records r hr).mono hle

/-! ## Registries -/

section Registries

variable {g g' : Registry α} {l : ListenerId}

/-- A watcher is made without any listeners. -/
theorem Registries.empty (hl : ∀ {k k'}, ¬ G.listener i k k') (hs : ∀ {k}, ¬ G.skipped i k) :
    G.Registries below i ({} : Registry α) {} where
  sound := .empty
  sound' := .empty
  entries := .nil
  records hk := absurd hk hl
  covered _ hr := absurd hr List.not_mem_nil
  onto _ hr := absurd hr List.not_mem_nil
  issued hk := absurd hk hl
  skipped_issued hk := absurd hk hs
  skipped_records _ hr := absurd hr List.not_mem_nil

/-- The next ids are used up, and may stand for the same listener. -/
theorem Registries.reserve (h : G.Registries below i g g') (hle : G ≤ H)
    (hl : ∀ {k k'}, H.listener i k k' → G.listener i k k' ∨ k = g.nextId ∧ k' = g'.nextId)
    (hs : ∀ {k}, H.skipped i k → G.skipped i k) :
    H.Registries below i g.reserve g'.reserve := by
  refine h.widen hle (Nat.le_succ _) (Nat.le_succ _) (fun hk => (hl hk).imp_right ?_)
    fun hk => .inl (hs hk)
  rintro ⟨rfl, rfl⟩
  exact ⟨g.nextId_new, g'.nextId_new⟩

/-- The next id is used up in the first world, and may stand for a subscription from inside. -/
theorem Registries.reserve_skipped (h : G.Registries below i g g') (hle : G ≤ H)
    (hl : ∀ {k k'}, H.listener i k k' → G.listener i k k')
    (hs : ∀ {k}, H.skipped i k → G.skipped i k ∨ k = g.nextId) :
    H.Registries below i g.reserve g' := by
  refine h.widen hle (Nat.le_succ _) (Nat.le_refl _) (fun hk => .inl (hl hk))
    fun hk => (hs hk).imp_right ?_
  rintro rfl
  exact g.nextId_new

/-- A listener is registered under the ids used up. -/
theorem Registries.insert (h : G.Registries below i g.reserve g'.reserve) (hg : g.Sound)
    (hg' : g'.Sound) (hl : G.listener i g.nextId g'.nextId) {s s' : Listener α}
    (hs : G.Listeners below s s') {e : Executor α} (hd : e.disposal.OnSide below false)
    (ha : ∀ n, Callback below false (e.actions n)) :
    G.Registries below i (g.insert s e) (g'.insert s' e) where
  sound := hg.insert s e
  sound' := hg'.insert s' e
  entries := h.entries.append (.both hl .nil)
  records {k k'} hk := by
    rw [hg.find?_insert, hg'.find?_insert]
    by_cases heq : k = g.nextId
    · rw [if_pos heq, if_pos ((G.listener_inj hk hl).mp heq)]
      exact .some ⟨hs, rfl, hd, ha, rfl, rfl, rfl, rfl⟩
    · rw [if_neg heq, if_neg fun h => heq ((G.listener_inj hk hl).mpr h)]
      exact h.records hk
  covered r hr := by
    rcases List.mem_append.mp hr with hr | hr
    · exact h.covered r hr
    · obtain rfl := List.mem_singleton.mp hr
      exact .inr ⟨_, hl⟩
  onto r hr := by
    rcases List.mem_append.mp hr with hr | hr
    · exact h.onto r hr
    · obtain rfl := List.mem_singleton.mp hr
      exact ⟨_, hl⟩
  issued := h.issued
  skipped_issued := h.skipped_issued
  skipped_records r hr hk := by
    rcases List.mem_append.mp hr with hr | hr
    · exact h.skipped_records r hr hk
    · obtain rfl := List.mem_singleton.mp hr
      exact absurd hk (G.listener_apart hl)

/-- A subscription from inside is registered under the id used up. -/
theorem Registries.insert_skipped (h : G.Registries below i g.reserve g') (hg : g.Sound)
    (hl : G.skipped i g.nextId) {c : WatcherId} (hc : G.inside c) :
    G.Registries below i (g.insert (.subscription c) ⟨.inline, fun _ => []⟩) g' where
  sound := hg.insert ..
  sound' := h.sound'
  entries := (List.append_nil g'.entries) ▸ h.entries.append (.skip hl .nil)
  records {k k'} hk := by
    have hne : k ≠ g.nextId := fun heq => G.listener_apart hk (heq ▸ hl)
    rw [hg.find?_insert, if_neg hne]
    exact h.records hk
  covered r hr := by
    rcases List.mem_append.mp hr with hr | hr
    · exact h.covered r hr
    · obtain rfl := List.mem_singleton.mp hr
      exact .inl hl
  onto := h.onto
  issued := h.issued
  skipped_issued := h.skipped_issued
  skipped_records r hr hk := by
    rcases List.mem_append.mp hr with hr | hr
    · exact h.skipped_records r hr hk
    · obtain rfl := List.mem_singleton.mp hr
      exact ⟨c, rfl, hc, rfl⟩

end Registries

end Pairing

namespace World

variable {w : World α}

theorem watcher?_addWatcher_of_some {i : WatcherId} {a b : Watcher α}
    (hb : w.watcher? i = some b) : (w.addWatcher a).watcher? i = some b := by
  rw [watcher?_addWatcher, if_neg (Nat.ne_of_lt (lt_length hb)), hb]

theorem watcher?_addWatcher_length (w : World α) (a : Watcher α) :
    (w.addWatcher a).watcher? w.watchers.length = some a :=
  (watcher?_addWatcher w a _).trans (if_pos rfl)

end World

namespace World.Twins

variable {below : Name → Bool} {issuer : Name → Option WatcherId} {G H : Pairing}
  {w w' : World α} (h : w.Twins below issuer G w')

include h

/-- The watchers become others, and the pairing larger. -/
theorem widen (hle : G ≤ H) (ws ws' : List (Watcher α))
    (bodies : ∀ {i i'}, H.pair i i' → ∃ b b', ws[i]? = some b ∧ ws'[i']? = some b' ∧
      H.Watchers below i b b')
    (insides : ∀ {i}, H.inside i → ∃ b, ws[i]? = some b ∧ H.InsideWatcher below b)
    (covered : ∀ i < ws.length, H.inside i ∨ ∃ i', H.pair i i')
    (onto : ∀ i' < ws'.length, ∃ i, H.pair i i')
    (hosts : ∀ {p l}, H.skipped p l → ∃ p', H.pair p p')
    (listened : ∀ {p l l'}, H.listener p l l' → ∃ p', H.pair p p')
    (calls : ∀ {p p' l l'}, H.pair p p' → H.listener p l l' →
      (w'.callsTo p' l').map Task.state = (w.callsTo p l).map Task.state) :
    World.Twins below issuer H { w with watchers := ws } { w' with watchers := ws' } where
  bodies := bodies
  insides := insides
  covered := covered
  onto := onto
  hosts := hosts
  listened := listened
  handles := h.handles.imp fun _ _ _ _ hp => ⟨hp.1, hle.pair hp.2⟩
  insideHandles x hx hin := hle.inside (h.insideHandles x hx hin)
  listeners := h.listeners.imp fun _ _ _ _ ⟨p, hp, hl⟩ => ⟨p, hp, hle.listener hl⟩
  futures := h.futures.imp fun _ _ _ _ hp => hle.pair hp
  insideFutures x hx hin := hle.inside (h.insideFutures x hx hin)
  wakers := h.wakers
  insideWakers := h.insideWakers
  waiters := h.waiters.imp fun _ _ _ _ hp => hle.pair hp
  queues := h.queues.imp fun _ _ _ _ hts => hts.imp fun _ _ ht => ht.mono hle
  insideQueues x hx hin t ht := hle.inside (h.insideQueues x hx hin t ht)
  stopped := h.stopped
  calls := calls

/-! ## Ids are issued -/

/-- A change of a watcher outside is none of those inside. -/
theorem insides_modify (hle : G ≤ H) {p p' : WatcherId} (hp : G.pair p p')
    (f : Watcher α → Watcher α) {j : WatcherId} (hj : G.inside j) :
    ∃ e, (w.modify p f).watcher? j = some e ∧ H.InsideWatcher below e := by
  obtain ⟨e, he, hin⟩ := h.insides hj
  have hne : p ≠ j := fun heq => G.pair_apart hp (heq ▸ hj)
  exact ⟨e, (watcher?_modify_of_ne w hne _).trans he, hin.mono hle⟩

section Issue

variable {p p' : WatcherId} {b b' : Watcher α} (hb : w.watcher? p = some b)

include hb

/-- A watcher and its twin issue an id each. -/
theorem reserve (hd : w.Deliveries) (hw : w.Ledger) (hd' : w'.Deliveries) (hw' : w'.Ledger)
    (hp : G.pair p p') (hb' : w'.watcher? p' = some b') :
    ∃ H, G ≤ H ∧ H.skipped = G.skipped ∧ H.listener p b.registry.nextId b'.registry.nextId ∧
      (w.reserve p).Twins below issuer H (w'.reserve p') := by
  obtain ⟨a, a', ha, ha', hsame⟩ := h.bodies hp
  obtain rfl := Option.some.inj (ha.symm.trans hb)
  obtain rfl := Option.some.inj (ha'.symm.trans hb')
  have hl : ∀ k', ¬ G.listener p a.registry.nextId k' := fun k' hk =>
    Registry.nextId_not_le _ (hsame.registry.issued hk).1
  have hl' : ∀ k, ¬ G.listener p k a'.registry.nextId := fun k hk =>
    Registry.nextId_not_le _ (hsame.registry.issued hk).2
  have hs : ¬ G.skipped p a.registry.nextId := fun hk =>
    Registry.nextId_not_le _ (hsame.registry.skipped_issued hk)
  have hle : G ≤ G.withListener p a.registry.nextId a'.registry.nextId hl hl' hs :=
    ⟨id, id, .inl, id⟩
  refine ⟨_, hle, rfl, .inr ⟨rfl, rfl, rfl⟩, h.widen hle _ _ ?_ ?_ ?_ ?_ h.hosts ?_ ?_⟩
  · intro j j' hj
    obtain ⟨e, e', he, he', hthe⟩ := h.bodies hj
    by_cases heq : p = j
    · subst heq
      obtain rfl := (G.pair_inj hp hj).mp rfl
      obtain rfl := Option.some.inj (he.symm.trans ha)
      obtain rfl := Option.some.inj (he'.symm.trans ha')
      refine ⟨_, _, watcher?_modify_self he _, watcher?_modify_self he' _,
        { hthe with
          origin := hthe.origin.mono hle
          registry := hthe.registry.reserve hle ?_ fun hk => hk }⟩
      rintro k k' (hk | ⟨-, rfl, rfl⟩)
      · exact .inl hk
      · exact .inr ⟨rfl, rfl⟩
    · have hne : p' ≠ j' := fun h => heq ((G.pair_inj hp hj).mpr h)
      refine ⟨e, e', (watcher?_modify_of_ne w heq _).trans he,
        (watcher?_modify_of_ne w' hne _).trans he', hthe.mono hle ?_ fun hk => hk⟩
      rintro k k' (hk | ⟨rfl, -⟩)
      · exact hk
      · exact absurd rfl heq
  · exact fun {_} hj => h.insides_modify hle hp _ hj
  · exact fun j hj => h.covered j (by simpa using hj)
  · exact fun j hj => h.onto j (by simpa using hj)
  · rintro q k k' (hk | ⟨rfl, -⟩)
    · exact h.listened hk
    · exact ⟨p', hp⟩
  · rintro q q' k k' hq (hk | ⟨rfl, rfl, rfl⟩)
    · exact h.calls hq hk
    · obtain rfl := (G.pair_inj hp hq).mp rfl
      rw [hd.callsTo_eq_nil hw (registration?_nextId hw.sound hb),
        hd'.callsTo_eq_nil hw' (registration?_nextId hw'.sound hb')]

/-- A watcher outside issues an id for a subscription from inside. -/
theorem reserve_skipped (hp : G.pair p p') :
    ∃ H, G ≤ H ∧ H.skipped p b.registry.nextId ∧
      (∀ q k, H.skipped q k → G.skipped q k ∨ q = p ∧ k = b.registry.nextId) ∧
      (w.reserve p).Twins below issuer H w' := by
  obtain ⟨a, a', ha, -, hsame⟩ := h.bodies hp
  obtain rfl := Option.some.inj (ha.symm.trans hb)
  have hl : ∀ k', ¬ G.listener p a.registry.nextId k' := fun k' hk =>
    Registry.nextId_not_le _ (hsame.registry.issued hk).1
  have hle : G ≤ G.withSkipped p a.registry.nextId hl := ⟨id, id, id, .inl⟩
  refine ⟨_, hle, .inr ⟨rfl, rfl⟩, fun q k hk => hk,
    h.widen hle _ w'.watchers ?_ ?_ ?_ h.onto ?_ h.listened h.calls⟩
  · intro j j' hj
    obtain ⟨e, e', he, he', hthe⟩ := h.bodies hj
    by_cases heq : p = j
    · subst heq
      obtain rfl := Option.some.inj (he.symm.trans ha)
      exact ⟨_, e', watcher?_modify_self he _, he',
        { hthe with
          origin := hthe.origin.mono hle
          registry := hthe.registry.reserve_skipped hle (fun hk => hk) fun hk =>
            hk.imp_right And.right }⟩
    · exact ⟨e, e', (watcher?_modify_of_ne w heq _).trans he, he',
        hthe.mono hle (fun hk => hk) fun hk => hk.resolve_right fun hk => heq hk.1.symm⟩
  · exact fun {_} hj => h.insides_modify hle hp _ hj
  · exact fun j hj => h.covered j (by simpa using hj)
  · rintro q k (hk | ⟨rfl, -⟩)
    · exact h.hosts hk
    · exact ⟨p', hp⟩

end Issue

/-! ## Watchers are made -/

/-- A watcher is made outside. -/
theorem plant (name : String) {o o' : Origin α} (ho : G.Origins below o o') :
    ∃ H, G ≤ H ∧ H.skipped = G.skipped ∧ H.pair w.watchers.length w'.watchers.length ∧
      (w.addWatcher { name, origin := o }).Twins below issuer H
        (w'.addWatcher { name, origin := o' }) := by
  have hnew := h.watcher?_none w.watcher?_length
  have hnew' : ∀ i, ¬ G.pair i w'.watchers.length := fun i hi => by
    obtain ⟨b, b', -, hb', -⟩ := h.bodies hi
    exact nomatch w'.watcher?_length.symm.trans hb'
  have hle : G ≤ G.withPair w.watchers.length w'.watchers.length hnew.2 hnew' hnew.1 :=
    ⟨.inl, id, id, id⟩
  refine ⟨_, hle, rfl, .inr ⟨rfl, rfl⟩, h.widen hle _ _ ?_ ?_ ?_ ?_ ?_ ?_ ?_⟩
  · rintro j j' (hj | ⟨rfl, rfl⟩)
    · obtain ⟨e, e', he, he', hthe⟩ := h.bodies hj
      exact ⟨e, e', watcher?_addWatcher_of_some he, watcher?_addWatcher_of_some he',
        hthe.mono hle (fun hk => hk) fun hk => hk⟩
    · refine ⟨{ name, origin := o }, { name, origin := o' }, ?_, ?_, ?_⟩
      · exact w.watcher?_addWatcher_length _
      · exact w'.watcher?_addWatcher_length _
      · have hno : ∀ {k k'}, ¬ G.listener w.watchers.length k k' := fun hk =>
          (h.listened hk).elim hnew.2
        have hskip : ∀ {k}, ¬ G.skipped w.watchers.length k := fun hk =>
          (h.hosts hk).elim hnew.2
        exact
          { name := rfl
            origin := ho.mono hle
            latest := rfl
            updates := rfl
            closed := rfl
            slot := rfl
            wakers := fun _ hk => nomatch hk
            dropped := rfl
            registry := .empty hno hskip }
  · intro j hj
    obtain ⟨e, he, hin⟩ := h.insides hj
    exact ⟨e, watcher?_addWatcher_of_some he, hin.mono hle⟩
  · intro j hj
    rcases Nat.lt_or_eq_of_le (Nat.le_of_lt_succ (by simpa using hj)) with hlt | rfl
    · exact (h.covered j hlt).imp_right fun ⟨j', hj'⟩ => ⟨j', .inl hj'⟩
    · exact .inr ⟨_, .inr ⟨rfl, rfl⟩⟩
  · intro j' hj'
    rcases Nat.lt_or_eq_of_le (Nat.le_of_lt_succ (by simpa using hj')) with hlt | rfl
    · exact (h.onto j' hlt).imp fun _ hj => .inl hj
    · exact ⟨_, .inr ⟨rfl, rfl⟩⟩
  · exact fun hk => (h.hosts hk).imp fun _ hp => .inl hp
  · exact fun hk => (h.listened hk).imp fun _ hp => .inl hp
  · rintro q q' k k' (hq | ⟨rfl, rfl⟩) hk
    · exact h.calls hq hk
    · exact ((h.listened hk).elim hnew.2).elim

/-- A watcher is made inside. -/
theorem plant_inside {a : Watcher α} (ha : ∀ {H : Pairing}, G ≤ H → H.InsideWatcher below a) :
    ∃ H, G ≤ H ∧ H.skipped = G.skipped ∧ H.inside w.watchers.length ∧
      (w.addWatcher a).Twins below issuer H w' := by
  have hnew := h.watcher?_none w.watcher?_length
  have hle : G ≤ G.withInside w.watchers.length hnew.2 := ⟨id, .inl, id, id⟩
  refine ⟨_, hle, rfl, .inr rfl,
    h.widen hle _ w'.watchers ?_ ?_ ?_ h.onto h.hosts h.listened h.calls⟩
  · intro j j' hj
    obtain ⟨e, e', he, he', hthe⟩ := h.bodies hj
    exact ⟨e, e', watcher?_addWatcher_of_some he, he', hthe.mono hle (fun hk => hk) fun hk => hk⟩
  · rintro j (hj | rfl)
    · obtain ⟨e, he, hin⟩ := h.insides hj
      exact ⟨e, watcher?_addWatcher_of_some he, hin.mono hle⟩
    · exact ⟨a, w.watcher?_addWatcher_length _, ha hle⟩
  · intro j hj
    rcases Nat.lt_or_eq_of_le (Nat.le_of_lt_succ (by simpa using hj)) with hlt | rfl
    · exact (h.covered j hlt).imp_left .inl
    · exact .inl (.inr rfl)

end World.Twins

end WatchTree
