import Idle.Core.Ordering
import Idle.Core.History
import Idle.Core.Marked
import Idle.Core.StopRequests

/-!
# The destruction of a service

`Service::destroy` revokes the interfaces of a service, so that those who use them let go, and then
destroys its parts. A part disconnects its usages and destroys the services below it, which do the
same; a `Link` destroys the service that it has put beside its owner. The caller has to know that
the service and those of the links are stopped: then everything that falls with it is stopped, and
what hangs on a service goes before it.
-/

namespace Idle

open Relation

/-- Which exports are interfaces, and which parts are a `Link`, each with its `export_`. The
service of `export_` is stored in the `Link` and is a child of the part that the owner of the
`Link` is a child of. No other part uses such an export, and a `Link` has no children. -/
structure Links (L : Layout) where
  isInterface : Part → Bool
  link? : Part → Option Part
  not_interface : ∀ {p x}, link? p = some x → isInterface x = false
  mem_imports : ∀ {p x}, link? p = some x → p ∈ L.imports p.owner
  parent_eq : ∀ {p x}, link? p = some x → L.parent x.owner = L.parent p.owner
  owner_ne : ∀ {p x}, link? p = some x → x.owner ≠ p.owner ∧ x.owner ≠ L.root
  unique : ∀ {p q x y}, link? p = some x → link? q = some y → x.owner = y.owner → p = q
  childless : ∀ {t}, t ≠ L.root → link? (L.parent t) = none

namespace Links

variable {L : Layout} (k : Links L)

/-- `Service::interfaces` -/
def interfaces (s : ServiceId) : List Part := (L.exports s).filter k.isInterface

/-- The service is a child of the part, or it is the one of the `Link`. -/
def Hangs (t : ServiceId) (p : Part) : Prop :=
  t ≠ L.root ∧ L.parent t = p ∨ ∃ x, k.link? p = some x ∧ x.owner = t

/-- `t` is `s`, or it hangs on `s` directly or through others. -/
def Falls : ServiceId → ServiceId → Prop :=
  ReflTransGen fun t s => ∃ p, p.owner = s ∧ k.Hangs t p

/-- `t` hangs on the part directly or through others. -/
def FallsWith (t : ServiceId) (p : Part) : Prop := ∃ c, k.Hangs c p ∧ k.Falls t c

/-- `t` is the service of a `Link` that `o` owns. -/
def Owns (o t : ServiceId) : Prop := ∃ p x, k.link? p = some x ∧ p.owner = o ∧ x.owner = t

/-- What the links see to: no usage but that of a `Link` is one of an export that is not an
interface, and the service of a `Link` is initialised after its owner and destroyed with it. -/
structure Linked (st : State) : Prop where
  usage : ∀ u ∈ st.usages,
    k.link? u.user = none ∧ k.isInterface u.used = true ∨ k.link? u.user = some u.used
  owner_mem : ∀ p x, k.link? p = some x → x.owner ∈ st.services → p.owner ∈ st.services
  ordered : st.services.Pairwise fun t o => ¬ k.Owns o t

/-- No `Link` uses the service. -/
def Unlinked (st : State) (s : ServiceId) : Prop :=
  ∀ p x, k.link? p = some x → x.owner = s → ∀ u ∈ st.usages, u.user ≠ p

end Links

namespace Op

/-- The operation connects or disconnects a usage, or tells whether an import is satisfied. -/
def IsRewiring : Op → Prop
  | connect _ | disconnect _ | setSatisfied _ _ => True
  | _ => False

/-- The service that the operation destroys. -/
def destroyed? : Op → Option ServiceId
  | destroy s => some s
  | _ => none

end Op

/-- `Usage::onUsedDestroy`, which every user overrides: it is called for a usage of an interface
that was revoked. It dissolves this usage and no other, and what it uses instead is an interface
that has not been revoked. -/
structure UsedDestroyHook {L : Layout} (k : Links L) where
  onUsedDestroy : List Part → State → Usage → List Op
  rewires : ∀ revoked st u, ∀ op ∈ onUsedDestroy revoked st u, op.IsRewiring
  admissible : ∀ revoked st u, Reachable L st → u ∈ st.usages → u.used ∈ revoked →
    (system L).Admissible (fun _ _ => True) st (onUsedDestroy revoked st u)
  usages : ∀ revoked st u, Reachable L st → u ∈ st.usages → u.used ∈ revoked →
    ∀ v ∈ ((onUsedDestroy revoked st u).foldl Op.exec st).usages,
      v ∈ st.usages ∧ v ≠ u ∨
        v.user = u.user ∧ k.isInterface v.used = true ∧ v.used ∉ revoked
  others : ∀ revoked st u, Reachable L st → u ∈ st.usages → u.used ∈ revoked →
    ∀ v ∈ st.usages, v ≠ u → v ∈ ((onUsedDestroy revoked st u).foldl Op.exec st).usages

/-- A destruction: the state, the operations so far, and the interfaces that were revoked. -/
structure Destruction where
  state : State
  ops : List Op
  revoked : List Part

namespace Destruction

/-- Nothing was done yet. -/
def start (st : State) : Destruction := ⟨st, [], []⟩

def perform (d : Destruction) (ops : List Op) : Destruction :=
  { d with state := ops.foldl Op.exec d.state, ops := d.ops ++ ops }

/-- The services that were destroyed, in this order. -/
def destroyed (d : Destruction) : List ServiceId := d.ops.filterMap Op.destroyed?

/-- The usages of a part that is destroyed are disconnected. -/
def dissolve (d : Destruction) (p : Part) : Destruction :=
  d.perform ((d.state.importedUsages p).map .disconnect)

variable {L : Layout} {k : Links L} (hook : UsedDestroyHook k)

/-- `used_destroy` -/
def usedDestroy (d : Destruction) (u : Usage) : Destruction :=
  d.perform (hook.onUsedDestroy d.revoked d.state u)

/-- `interface_revoke`: the interface leaves its registry, and all usages of it are told. -/
def revoke (d : Destruction) (p : Part) : Destruction :=
  (d.state.dependentUsers p).foldl (usedDestroy hook) { d with revoked := p :: d.revoked }

/-- `Part::onPartDestroy`: that of `UseImport` for a `Link`, and for every other part that of the
usages and of the children which it may have. -/
def onPartDestroy (k : Links L) (destroy : Destruction → ServiceId → Destruction)
    (clear : Destruction → Part → Destruction) (d : Destruction) (p : Part) : Destruction :=
  match k.link? p with
  | some x =>
    if (d.state.phase x.owner).isInitializedUnsafe then destroy (d.dissolve p) x.owner else d
  | none => clear (d.dissolve p) p

mutual

/-- `Service::destroy`, up to a depth of `fuel` calls. -/
def destroy : Nat → Destruction → ServiceId → Destruction
  | 0, d, _ => d
  | fuel + 1, d, s =>
    if (d.state.phase s).isInitializedUnsafe then
      let d := (k.interfaces s).foldl (revoke hook) d
      let d := (L.exports s).foldl (onPartDestroy k (destroy fuel) (clear fuel)) d
      let d := (L.imports s).foldl (onPartDestroy k (destroy fuel) (clear fuel)) d
      d.perform [.destroy s]
    else d

/-- The loop of `Container::onPartDestroy` and of `Collection::clear`, over the first child. -/
def clear : Nat → Destruction → Part → Destruction
  | 0, d, _ => d
  | fuel + 1, d, p =>
    match d.state.children p with
    | [] => d
    | child :: _ => clear fuel (destroy fuel d child) p

end

end Destruction

lemma Reachable.exec {L : Layout} {st : State} {op : Op} (hst : Reachable L st) (hp : op.Pre st) :
    Reachable L (op.exec st) :=
  Machine.Reachable.step hst hp trivial

namespace State

variable {L : Layout} {st : State} {s t : ServiceId} {u : Usage}

/-! ### What the operations change -/

lemma setSatisfied_topology (hw : st.WellFormed) (imp : Part) (satisfied : Bool) :
    (st.setSatisfied onServiceStartable imp satisfied).toTopology = st.toTopology := by
  unfold State.setSatisfied
  split
  · simp only
    split
    · have htree : ({ st with satisfied := Function.update st.satisfied imp satisfied } :
          State).IsTree := hw.toIsTree
      exact topology_of_away
        (onOuterRequiredDecrement_reports startable_reports htree).toStirs.away
    · rfl
  · rfl

lemma destroy_usages (hw : st.WellFormed) (hs : st.CanDestroy s) :
    (st.destroy onServiceStartable s).usages = st.usages ∧
      (st.destroy onServiceStartable s).layout = st.layout := by
  obtain ⟨htop, -⟩ := onServiceDel_frame hw hs rfl
  unfold State.destroy
  simp only
  generalize (if st.layout.isClusterHead s then st.transitionTargetSet s .none
    else st).onServiceDel onServiceStartable s = y at htop
  have hy : y.usages = st.usages ∧ y.layout = st.layout := by
    rw [htop]
    exact ⟨rfl, rfl⟩
  split <;> exact hy

/-- The layout is fixed. -/
lemma layout_eq (hst : Reachable L st) : st.layout = L := by
  have hclosed : Life.Closed fun l => l.layout = L :=
    ⟨fun _ _ _ _ _ h => h, fun _ _ _ h => h, fun _ _ _ _ _ h => h, fun _ _ _ h => h,
      fun _ _ h => h⟩
  refine Machine.Reachable.invariant (P := fun st => st.layout = L) hst ?_ ?_
  · rintro st rfl
    rfl
  · exact fun st op _ h hp _ => exec_closed (Q := fun l => l.layout = L) hclosed hp h

/-- `on_init` is passed within one handler. -/
lemma phase_ne_onInit (hst : Reachable L st) (t : ServiceId) : st.phase t ≠ .onInit := by
  have hupdate : ∀ (phase : ServiceId → Phase) (s : ServiceId) (q : Phase), q ≠ .onInit →
      (∀ t, phase t ≠ .onInit) → ∀ t, Function.update phase s q t ≠ .onInit := by
    intro phase s q hq hphase t
    rw [Function.update_apply]
    split
    · exact hq
    · exact hphase t
  have hclosed : Life.Closed fun l => ∀ t, l.phase t ≠ .onInit := by
    refine ⟨fun l s p q hq hl => hupdate _ _ _ ?_ hl, fun _ _ _ h => h, fun _ _ _ _ _ h => h,
      fun l s _ hl => hupdate _ _ _ (by decide) hl, fun l s hl => hupdate _ _ _ (by decide) hl⟩
    rintro rfl
    cases hq
  refine Machine.Reachable.invariant (P := fun st => ∀ t, st.phase t ≠ .onInit) hst ?_ ?_ t
  · rintro st rfl t
    show (if t = L.root then Phase.stopped else .uninitialized) ≠ .onInit
    split <;> decide
  · exact fun st op _ h hp _ =>
      exec_closed (Q := fun l => ∀ t, l.phase t ≠ .onInit) hclosed hp h

/-- Rewiring leaves the services and their phases alone, but for that of the root. -/
lemma rewiring_frame {ops : List Op} (hst : Reachable L st)
    (has : (system L).Admissible (fun _ _ => True) st ops) (hops : ∀ op ∈ ops, op.IsRewiring) :
    (ops.foldl Op.exec st).toServiceTree = st.toServiceTree ∧
      ∀ s, s ≠ st.layout.root → (ops.foldl Op.exec st).phase s = st.phase s := by
  induction ops generalizing st with
  | nil => exact ⟨rfl, fun _ _ => rfl⟩
  | cons op ops ih =>
    obtain ⟨hpre, -, has⟩ := has
    have hsteady : op.IsSteady := by
      have hop := hops op List.mem_cons_self
      cases op with
      | connect _ | disconnect _ | setSatisfied _ _ => trivial
      | _ => exact hop.elim
    have hasks := exec_asks (.refl hst.wellFormed) hpre hsteady
    obtain ⟨htree, hphase⟩ := ih (hst.exec hpre) has
      fun op hop => hops op (List.mem_cons_of_mem _ hop)
    refine ⟨htree.trans hasks.tree, fun s hs => ?_⟩
    have hs' : s ≠ (op.exec st).layout.root := by
      rw [hasks.tree]
      exact hs
    exact (hphase s hs').trans (hasks.phase s hs)

/-- Disconnecting usages one by one takes exactly these away. -/
lemma disconnect_all {us : List Usage} (hst : Reachable L st) (hus : us.Nodup)
    (hmem : ∀ u ∈ us, u ∈ st.usages) :
    (system L).Admissible (fun _ _ => True) st (us.map .disconnect) ∧
      ∀ v, v ∈ ((us.map Op.disconnect).foldl Op.exec st).usages ↔ v ∈ st.usages ∧ v ∉ us := by
  induction us generalizing st with
  | nil => exact ⟨trivial, fun v => by simp⟩
  | cons u us ih =>
    obtain ⟨hu, hus⟩ := List.nodup_cons.1 hus
    have hw := hst.wellFormed
    have hpre : (Op.disconnect u).Pre st := hmem u List.mem_cons_self
    have husages : ((Op.disconnect u).exec st).usages = st.usages.erase u :=
      congrArg Topology.usages (disconnect_topology hw.toIsTree u)
    have hmem' : ∀ v, v ∈ ((Op.disconnect u).exec st).usages ↔ v ≠ u ∧ v ∈ st.usages := by
      intro v
      rw [husages]
      exact hw.usages_nodup'.mem_erase_iff
    obtain ⟨has, hiff⟩ := ih (hst.exec hpre) hus fun v hv =>
      (hmem' v).2 ⟨fun h => hu (h ▸ hv), hmem v (List.mem_cons_of_mem _ hv)⟩
    refine ⟨⟨hpre, trivial, has⟩, fun v => ?_⟩
    have hv : v ∈ ((us.map Op.disconnect).foldl Op.exec ((Op.disconnect u).exec st)).usages ↔
      v ∈ ((Op.disconnect u).exec st).usages ∧ v ∉ us := hiff v
    rw [List.map_cons, List.foldl_cons, hv, hmem', List.mem_cons, not_or]
    constructor
    · rintro ⟨⟨hne, hv⟩, hvs⟩
      exact ⟨hv, hne, hvs⟩
    · rintro ⟨hv, hne, hvs⟩
      exact ⟨⟨hne, hv⟩, hvs⟩

end State

/-! ### What hangs on what -/

namespace Reachable

variable {L : Layout} {st : State} {t : ServiceId}

lemma parent_mem (hst : Reachable L st) (ht : t ∈ st.services) :
    (L.parent t).owner ∈ st.services := by
  have hmem := hst.wellFormed.parent_mem ht
  rwa [State.layout_eq hst] at hmem

lemma parent_parts (hst : Reachable L st) (ht : t ∈ st.services) (hne : t ≠ L.root) :
    L.parent t ∈ L.parts (L.parent t).owner := by
  have hlayout := State.layout_eq hst
  have hparts := hst.wellFormed.parent_parts ht (by rwa [hlayout])
  rwa [hlayout] at hparts

lemma parent_before (hst : Reachable L st) (ht : t ∈ st.services) (hne : t ≠ L.root) :
    st.services.idxOf (L.parent t).owner < st.services.idxOf t := by
  have hlayout := State.layout_eq hst
  have hlt := hst.wellFormed.toIsTree.parent_before ht (by rwa [hlayout])
  rwa [hlayout] at hlt

lemma mem_children (hst : Reachable L st) {p : Part} :
    t ∈ st.children p ↔ t ∈ st.services ∧ t ≠ L.root ∧ L.parent t = p := by
  rw [← State.layout_eq hst]
  exact ServiceTree.mem_children

/-- The initialised services are those in the tree. -/
lemma isInitializedUnsafe_iff (hst : Reachable L st) :
    (st.phase t).isInitializedUnsafe = true ↔ t ∈ st.services := by
  have hmem : t ∈ st.services ↔ (st.phase t).next?.isSome :=
    (Reachable.sound hst).good.initialized t
  have hphase := State.phase_ne_onInit hst t
  rw [hmem]
  cases hp : st.phase t with
  | onInit => exact absurd hp hphase
  | uninitialized | onDestroy | destroyed => decide
  | stopped | locked | starting | running | stopping | pending => decide

end Reachable

namespace Links

variable {L : Layout} {k : Links L} {st : State} {s t : ServiceId} {p : Part}

lemma FallsWith.falls (h : k.FallsWith t p) : k.Falls t p.owner := by
  obtain ⟨c, hc, hfalls⟩ := h
  exact hfalls.tail ⟨p, rfl, hc⟩

lemma Hangs.ne_root (h : k.Hangs t p) : t ≠ L.root := by
  rcases h with ⟨hne, -⟩ | ⟨x, hx, rfl⟩
  · exact hne
  · exact (k.owner_ne hx).2

lemma Falls.ne_root (h : k.Falls t s) (hs : s ≠ L.root) : t ≠ L.root := by
  cases h using ReflTransGen.head_induction_on with
  | refl => exact hs
  | head hstep _ =>
    obtain ⟨p, -, hp⟩ := hstep
    exact hp.ne_root

lemma FallsWith.ne_root (h : k.FallsWith t p) : t ≠ L.root := by
  obtain ⟨c, hc, hfalls⟩ := h
  exact hfalls.ne_root hc.ne_root

/-- What falls with a service is the service itself or falls with one of its parts. -/
lemma Falls.cases (h : k.Falls t s) : t = s ∨ ∃ p, p.owner = s ∧ k.FallsWith t p := by
  rcases ReflTransGen.cases_tail h with rfl | ⟨c, hfalls, p, howner, hc⟩
  · exact .inl rfl
  · exact .inr ⟨p, howner, c, hc, hfalls⟩

namespace Linked

variable (hk : k.Linked st) (hst : Reachable L st)

include hk in
/-- An owner is initialised before the services of its links. -/
lemma owner_before {o : ServiceId} (h : k.Owns o t) (ht : t ∈ st.services) :
    o ∈ st.services ∧ st.services.idxOf o < st.services.idxOf t := by
  have ho : o ∈ st.services := by
    obtain ⟨p, x, hx, rfl, rfl⟩ := h
    exact hk.owner_mem p x hx ht
  refine ⟨ho, ?_⟩
  by_contra hle
  rcases (Nat.le_of_not_lt hle).lt_or_eq with hlt | heq
  · have hnot := List.pairwise_iff_getElem.1 hk.ordered _ _ (List.idxOf_lt_length_of_mem ht)
      (List.idxOf_lt_length_of_mem ho) hlt
    rw [List.getElem_idxOf, List.getElem_idxOf] at hnot
    exact hnot h
  · have heq : t = o := (List.idxOf_inj ht).1 heq
    obtain ⟨p, x, hx, rfl, rfl⟩ := h
    exact (k.owner_ne hx).1 heq

include hk hst

lemma before (h : k.Hangs t p) (ht : t ∈ st.services) :
    p.owner ∈ st.services ∧ st.services.idxOf p.owner < st.services.idxOf t := by
  rcases h with ⟨hne, rfl⟩ | ⟨x, hx, rfl⟩
  · exact ⟨hst.parent_mem ht, hst.parent_before ht hne⟩
  · exact hk.owner_before ⟨p, x, hx, rfl, rfl⟩ ht

lemma falls_before (h : k.Falls t s) (ht : t ∈ st.services) :
    s ∈ st.services ∧ st.services.idxOf s ≤ st.services.idxOf t := by
  induction h with
  | refl => exact ⟨ht, le_rfl⟩
  | tail _ hstep ih =>
    obtain ⟨p, rfl, hp⟩ := hstep
    obtain ⟨hmem, hlt⟩ := hk.before hst hp ih.1
    exact ⟨hmem, hlt.le.trans ih.2⟩

/-- A service does not fall with its own parts. -/
lemma not_fallsWith (hs : s ∈ st.services) (hp : p.owner = s) : ¬ k.FallsWith s p := by
  rintro ⟨c, hc, hfalls⟩
  obtain ⟨hmem, hle⟩ := hk.falls_before hst hfalls hs
  have hlt := (hk.before hst hc hmem).2
  rw [hp] at hlt
  exact absurd hle (not_le.2 hlt)

omit hk in
lemma parts_of_hangs (h : k.Hangs t p) (ht : t ∈ st.services) : p ∈ L.parts p.owner := by
  rcases h with ⟨hne, rfl⟩ | ⟨x, hx, -⟩
  · exact hst.parent_parts ht hne
  · exact (List.mem_filter.1 (k.mem_imports hx)).1

lemma fallsWith_of_falls (h : k.Falls t s) (ht : t ∈ st.services) (hts : t ≠ s) :
    ∃ p ∈ L.parts s, k.FallsWith t p := by
  obtain ⟨p, rfl, c, hc, hfalls⟩ := h.cases.resolve_left hts
  exact ⟨p, parts_of_hangs hst hc (hk.falls_before hst hfalls ht).1, c, hc, hfalls⟩

/-- The first child of a part is not the service of a `Link`: the owner of the `Link` would be a
child as well, and come before it. -/
lemma unlinked_first {c : ServiceId} {rest : List ServiceId} (h : st.children p = c :: rest) :
    k.Unlinked st c := by
  have hmem : c ∈ st.children p := h ▸ List.mem_cons_self
  obtain ⟨-, -, hparent⟩ := hst.mem_children.1 hmem
  intro q x hx hc u hu huser
  have howner : q.owner ∈ st.children p := by
    refine hst.mem_children.2 ⟨huser ▸ hst.wellFormed.user_mem u hu, fun hroot => ?_, ?_⟩
    · -- the root has no imports
      have himport := List.mem_filter.1 (k.mem_imports hx)
      rw [hroot] at himport
      have hexport := L.root_parts himport.1
      rw [Part.isExport_eq_not, himport.2] at hexport
      cases hexport
    · rw [← k.parent_eq hx, hc, hparent]
  have hordered : (st.children p).Pairwise fun t o => ¬ k.Owns o t :=
    hk.ordered.sublist List.filter_sublist
  rw [h] at howner hordered
  rcases List.mem_cons.1 howner with heq | hrest
  · exact (k.owner_ne hx).1 (hc.trans heq.symm)
  · exact List.rel_of_pairwise_cons hordered hrest ⟨q, x, hx, rfl, hc⟩

end Linked

end Links

/-! ### What a part of the destruction does -/

namespace Destruction

/-- A destruction in a state that can be reached, in which the links are as they should be. -/
structure Sound {L : Layout} (k : Links L) (d : Destruction) : Prop where
  reachable : Reachable L d.state
  linked : k.Linked d.state
  revoked : ∀ p ∈ d.revoked, k.isInterface p = true

/-- How a destruction goes on: by operations that are allowed, which destroy the services of the
list, each one after those that hang on it. -/
structure Leads {L : Layout} (k : Links L) (d d' : Destruction) (ss : List ServiceId) : Prop where
  run : ∃ ops, d'.ops = d.ops ++ ops ∧ d'.state = ops.foldl Op.exec d.state ∧
    (system L).Admissible (fun _ _ => True) d.state ops ∧ ops.filterMap Op.destroyed? = ss
  services : ∀ t, t ∈ d'.state.services ↔ t ∈ d.state.services ∧ t ∉ ss
  mem : ∀ t ∈ ss, t ∈ d.state.services
  nodup : ss.Nodup
  ordered : ss.Pairwise fun t u => ¬ ∃ p, p.owner = t ∧ k.Hangs u p
  phase : ∀ t ∈ d'.state.services, t ≠ L.root → d'.state.phase t = d.state.phase t
  revoked : ∀ p ∈ d.revoked, p ∈ d'.revoked
  user : ∀ p, (∀ u ∈ d.state.usages, u.user ≠ p) → ∀ u ∈ d'.state.usages, u.user ≠ p
  sound : d'.Sound k

/-- Nothing uses what was revoked. -/
def Unused (d : Destruction) : Prop := ∀ u ∈ d.state.usages, u.used ∉ d.revoked

variable {L : Layout} {k : Links L} {d d' d'' : Destruction} {ss ss' : List ServiceId}
  {s t : ServiceId} {p : Part} {ps : List Part} {ops : List Op} {u : Usage}

namespace Leads

lemma refl (hd : d.Sound k) : Leads k d d [] where
  run := ⟨[], by simp, rfl, trivial, rfl⟩
  services t := by simp
  mem := by simp
  nodup := List.nodup_nil
  ordered := .nil
  phase _ _ _ := rfl
  revoked _ h := h
  user _ h := h
  sound := hd

lemma trans (h : Leads k d d' ss) (h' : Leads k d' d'' ss') : Leads k d d'' (ss ++ ss') where
  run := by
    obtain ⟨ops, hops, hstate, has, hss⟩ := h.run
    obtain ⟨ops', hops', hstate', has', hss'⟩ := h'.run
    refine ⟨ops ++ ops', ?_, ?_, has.append (hstate ▸ has'), ?_⟩
    · rw [hops', hops, List.append_assoc]
    · rw [hstate', hstate, List.foldl_append]
    · rw [List.filterMap_append, hss, hss']
  services t := by
    rw [h'.services, h.services, List.mem_append, not_or, and_assoc]
  mem t ht := by
    rcases List.mem_append.1 ht with ht | ht
    · exact h.mem t ht
    · exact ((h.services t).1 (h'.mem t ht)).1
  nodup := by
    refine h.nodup.append h'.nodup fun t ht ht' => ?_
    exact ((h.services t).1 (h'.mem t ht')).2 ht
  ordered := by
    refine List.pairwise_append.2 ⟨h.ordered, h'.ordered, fun t ht u hu => ?_⟩
    -- what `u` hangs on is still there when `u` is destroyed
    rintro ⟨p, rfl, hp⟩
    have howner := (h.sound.linked.before h.sound.reachable hp (h'.mem u hu)).1
    exact ((h.services _).1 howner).2 ht
  phase t ht hne := (h'.phase t ht hne).trans (h.phase t ((h'.services t).1 ht).1 hne)
  revoked p hp := h'.revoked p (h.revoked p hp)
  user p hp := h'.user p (h.user p hp)
  sound := h'.sound

end Leads

/-- Rewiring destroys nothing. -/
lemma perform_leads (hd : d.Sound k) (has : (system L).Admissible (fun _ _ => True) d.state ops)
    (hops : ∀ op ∈ ops, op.IsRewiring)
    (husages : ∀ v ∈ (d.perform ops).state.usages, v ∈ d.state.usages ∨
      k.link? v.user = none ∧ k.isInterface v.used = true ∧ ∃ u ∈ d.state.usages, u.user = v.user) :
    Leads k d (d.perform ops) [] := by
  obtain ⟨htree, hphase⟩ := State.rewiring_frame hd.reachable has hops
  have hservices : (d.perform ops).state.services = d.state.services :=
    congrArg ServiceTree.services htree
  rw [State.layout_eq hd.reachable] at hphase
  refine ⟨⟨ops, rfl, rfl, has, List.filterMap_eq_nil_iff.2 fun op hop => ?_⟩, fun t => ?_, by simp,
    List.nodup_nil, .nil, fun t _ hne => hphase t hne, fun _ h => h, fun p hp v hv => ?_,
    Machine.Reachable.run hd.reachable has, ⟨fun v hv => ?_, fun p x hx hmem => ?_, ?_⟩,
    hd.revoked⟩
  · have hop := hops op hop
    cases op with
    | destroy _ => exact hop.elim
    | _ => rfl
  · rw [hservices]
    simp
  · rcases husages v hv with hv | ⟨-, -, u, hu, huser⟩
    · exact hp v hv
    · exact huser ▸ hp u hu
  · rcases husages v hv with hv | ⟨hlink, hused, -⟩
    · exact hd.linked.usage v hv
    · exact .inl ⟨hlink, hused⟩
  · rw [hservices] at hmem ⊢
    exact hd.linked.owner_mem p x hx hmem
  · rw [hservices]
    exact hd.linked.ordered

/-- A part that was dissolved uses nothing any more. -/
lemma dissolve_leads (hd : d.Sound k) (p : Part) :
    Leads k d (d.dissolve p) [] ∧ (∀ u ∈ (d.dissolve p).state.usages, u.user ≠ p) ∧
      ∀ u ∈ (d.dissolve p).state.usages, u ∈ d.state.usages := by
  have hnodup : (d.state.importedUsages p).Nodup := hd.reachable.wellFormed.usages_nodup'.filter _
  obtain ⟨has, hiff⟩ := State.disconnect_all hd.reachable hnodup
    fun u hu => (List.mem_filter.1 hu).1
  refine ⟨perform_leads hd has ?_ fun u hu => .inl ((hiff u).1 hu).1, fun u hu hup => ?_,
    fun u hu => ((hiff u).1 hu).1⟩
  · intro op hop
    obtain ⟨u, -, rfl⟩ := List.mem_map.1 hop
    trivial
  · obtain ⟨hmem, hnot⟩ := (hiff u).1 hu
    exact hnot (List.mem_filter.2 ⟨hmem, beq_iff_eq.2 hup⟩)

section Hook

variable (hook : UsedDestroyHook k)

lemma usedDestroy_leads (hd : d.Sound k) (hu : u ∈ d.state.usages) (hr : u.used ∈ d.revoked) :
    Leads k d (d.usedDestroy hook u) [] := by
  refine perform_leads hd (hook.admissible _ _ _ hd.reachable hu hr) (hook.rewires _ _ _)
    fun v hv => ?_
  rcases hook.usages _ _ _ hd.reachable hu hr v hv with ⟨hv, -⟩ | ⟨huser, hused, -⟩
  · exact .inl hv
  · -- the user is not a `Link`, as it used an interface
    refine .inr ⟨?_, hused, u, hu, huser.symm⟩
    rw [huser]
    rcases hd.linked.usage u hu with ⟨hlink, -⟩ | hlink
    · exact hlink
    · have hnot := k.not_interface hlink
      rw [hd.revoked _ hr] at hnot
      cases hnot

/-- The loop over the usages of an interface that was revoked. -/
lemma usedDestroy_loop {us : List Usage} (hd : d.Sound k) (hus : us.Nodup)
    (hmem : ∀ u ∈ us, u ∈ d.state.usages ∧ u.used ∈ d.revoked)
    (hunused : ∀ u ∈ d.state.usages, u.used ∈ d.revoked → u ∈ us) :
    Leads k d (us.foldl (usedDestroy hook) d) [] ∧ (us.foldl (usedDestroy hook) d).Unused := by
  induction us generalizing d with
  | nil => exact ⟨.refl hd, fun u hu hr => absurd (hunused u hu hr) List.not_mem_nil⟩
  | cons u us ih =>
    obtain ⟨hu, hus⟩ := List.nodup_cons.1 hus
    obtain ⟨hmemu, hr⟩ := hmem u List.mem_cons_self
    have hlead := usedDestroy_leads hook hd hmemu hr
    have hrest : ∀ v ∈ us, v ∈ (d.usedDestroy hook u).state.usages ∧
        v.used ∈ (d.usedDestroy hook u).revoked := by
      intro v hv
      obtain ⟨hv', hrv⟩ := hmem v (List.mem_cons_of_mem _ hv)
      exact ⟨hook.others _ _ _ hd.reachable hmemu hr v hv' fun h => hu (h ▸ hv), hrv⟩
    have hleft : ∀ v ∈ (d.usedDestroy hook u).state.usages,
        v.used ∈ (d.usedDestroy hook u).revoked → v ∈ us := by
      intro v hv hrv
      rcases hook.usages _ _ _ hd.reachable hmemu hr v hv with ⟨hv, hne⟩ | ⟨-, -, hnot⟩
      · exact (List.mem_cons.1 (hunused v hv hrv)).resolve_left hne
      · exact absurd hrv hnot
    obtain ⟨hleads, hnone⟩ := ih hlead.sound hus hrest hleft
    exact ⟨hlead.trans hleads, hnone⟩

lemma revoke_leads (hd : d.Sound k) (hunused : d.Unused) (hp : k.isInterface p = true) :
    Leads k d (d.revoke hook p) [] ∧ (d.revoke hook p).Unused ∧ p ∈ (d.revoke hook p).revoked := by
  have hsound : Sound k ⟨d.state, d.ops, p :: d.revoked⟩ :=
    ⟨hd.reachable, hd.linked, List.forall_mem_cons.2 ⟨hp, hd.revoked⟩⟩
  have hmem : ∀ u ∈ d.state.dependentUsers p, u ∈ d.state.usages ∧ u.used ∈ p :: d.revoked := by
    intro u hu
    obtain ⟨hu, hp⟩ := List.mem_filter.1 hu
    exact ⟨hu, List.mem_cons.2 (.inl (beq_iff_eq.1 hp))⟩
  have hall : ∀ u ∈ d.state.usages, u.used ∈ p :: d.revoked → u ∈ d.state.dependentUsers p := by
    intro u hu hr
    refine List.mem_filter.2 ⟨hu, beq_iff_eq.2 ?_⟩
    exact (List.mem_cons.1 hr).resolve_right (hunused u hu)
  obtain ⟨hleads, hnone⟩ := usedDestroy_loop hook hsound
    (hd.reachable.wellFormed.usages_nodup'.filter _) hmem hall
  exact ⟨⟨hleads.run, hleads.services, hleads.mem, hleads.nodup, hleads.ordered, hleads.phase,
    fun q hq => hleads.revoked q (List.mem_cons_of_mem _ hq), hleads.user, hleads.sound⟩, hnone,
    hleads.revoked p List.mem_cons_self⟩

lemma revoke_all (hd : d.Sound k) (hunused : d.Unused)
    (hps : ∀ p ∈ ps, k.isInterface p = true) :
    Leads k d (ps.foldl (revoke hook) d) [] ∧ (ps.foldl (revoke hook) d).Unused ∧
      ∀ p ∈ ps, p ∈ (ps.foldl (revoke hook) d).revoked := by
  induction ps generalizing d with
  | nil => exact ⟨.refl hd, hunused, by simp⟩
  | cons p ps ih =>
    obtain ⟨hinterface, hps⟩ := List.forall_mem_cons.1 hps
    obtain ⟨hlead, hnone, hp⟩ := revoke_leads hook hd hunused hinterface
    obtain ⟨hleads, hnone', hrevoked⟩ := ih hlead.sound hnone hps
    refine ⟨hlead.trans hleads, hnone', fun q hq => ?_⟩
    rcases List.mem_cons.1 hq with rfl | hq
    · exact hleads.revoked q hp
    · exact hrevoked q hq

end Hook

/-- The service itself is destroyed. -/
lemma perform_destroy (hd : d.Sound k) (hs : d.state.CanDestroy s)
    (howns : ∀ t ∈ d.state.services, ¬ k.Owns s t) :
    Leads k d (d.perform [.destroy s]) [s] ∧
      (d.perform [.destroy s]).state.usages = d.state.usages := by
  have hw := hd.reachable.wellFormed
  obtain ⟨hservices, -, hphase⟩ := State.destroy_frame hw hs
  obtain ⟨husages, -⟩ := State.destroy_usages hw hs
  replace hservices : (d.perform [.destroy s]).state.services = d.state.services.erase s :=
    hservices
  replace husages : (d.perform [.destroy s]).state.usages = d.state.usages := husages
  rw [State.layout_eq hd.reachable] at hphase
  have hmem : ∀ t, t ∈ (d.perform [.destroy s]).state.services ↔
      t ∈ d.state.services ∧ t ∉ [s] := by
    intro t
    rw [hservices, hw.nodup.mem_erase_iff, List.mem_singleton]
    exact and_comm
  refine ⟨⟨⟨[.destroy s], rfl, rfl, ⟨hs, trivial, trivial⟩, rfl⟩, hmem, ?_,
    List.nodup_singleton s, List.pairwise_singleton _ s, fun t ht hne => ?_, fun _ h => h,
    fun p hp u hu => ?_,
    Reachable.exec hd.reachable (show (Op.destroy s).Pre d.state from hs),
    ⟨fun u hu => ?_, fun p x hx ht => ?_, ?_⟩, hd.revoked⟩, husages⟩
  · rintro t ht
    rw [List.mem_singleton.1 ht]
    exact hs.1
  · exact hphase t (fun h => ((hmem t).1 ht).2 (List.mem_singleton.2 h)) hne
  · rw [husages] at hu
    exact hp u hu
  · rw [husages] at hu
    exact hd.linked.usage u hu
  · -- the owner of a `Link` goes after the service of the `Link`
    have ht := ((hmem _).1 ht).1
    refine (hmem _).2 ⟨hd.linked.owner_mem p x hx ht, fun howner => ?_⟩
    exact howns _ ht ⟨p, x, hx, List.mem_singleton.1 howner, rfl⟩
  · rw [hservices]
    exact hd.linked.ordered.sublist List.erase_sublist

/-! ### The whole destruction -/

/-- Exactly the services with `P` are destroyed, and nothing uses what was revoked. -/
def Destroys (k : Links L) (d d' : Destruction) (P : ServiceId → Prop) : Prop :=
  d'.Unused ∧ ∃ ss, Leads k d d' ss ∧ ∀ t, t ∈ ss ↔ t ∈ d.state.services ∧ P t

open Classical in
/-- How many services have `P`. -/
noncomputable def count (d : Destruction) (P : ServiceId → Prop) : Nat :=
  (d.state.services.toFinset.filter P).card

lemma count_le {P Q : ServiceId → Prop}
    (h : ∀ t ∈ d'.state.services, Q t → t ∈ d.state.services ∧ P t) :
    d'.count Q ≤ d.count P := by
  classical
  refine Finset.card_le_card fun t ht => ?_
  simp only [Finset.mem_filter, List.mem_toFinset] at ht ⊢
  exact h t ht.1 ht.2

lemma count_lt {P Q : ServiceId → Prop}
    (h : ∀ t ∈ d'.state.services, Q t → t ∈ d.state.services ∧ P t) (hs : s ∈ d.state.services)
    (hp : P s) (hq : ¬ (s ∈ d'.state.services ∧ Q s)) : d'.count Q < d.count P := by
  classical
  refine Finset.card_lt_card ⟨fun t ht => ?_, fun hsub => hq ?_⟩
  · simp only [Finset.mem_filter, List.mem_toFinset] at ht ⊢
    exact h t ht.1 ht.2
  · have hs' := hsub (Finset.mem_filter.2 ⟨List.mem_toFinset.2 hs, hp⟩)
    simpa using hs'

namespace Leads

lemma mem_of_mem (h : Leads k d d' ss) (ht : t ∈ d'.state.services) : t ∈ d.state.services :=
  ((h.services t).1 ht).1

lemma stopped (h : Leads k d d' ss) (hne : t ≠ L.root) (ht : t ∈ d'.state.services)
    (hstopped : t ∈ d.state.services → d.state.phase t = .stopped) :
    d'.state.phase t = .stopped :=
  (h.phase t ht hne).trans (hstopped (h.mem_of_mem ht))

/-- What falls with a part is still stopped, and no more than before. -/
lemma ready (h : Leads k d d' ss) {n : Nat}
    (hstopped : ∀ t ∈ d.state.services, k.FallsWith t p → d.state.phase t = .stopped)
    (hn : 2 * d.count (k.FallsWith · p) + 1 ≤ n) :
    (∀ t ∈ d'.state.services, k.FallsWith t p → d'.state.phase t = .stopped) ∧
      2 * d'.count (k.FallsWith · p) + 1 ≤ n := by
  refine ⟨fun t ht hfalls => h.stopped hfalls.ne_root ht fun ht => hstopped t ht hfalls, ?_⟩
  have hle : d'.count (k.FallsWith · p) ≤ d.count (k.FallsWith · p) :=
    count_le fun t ht hfalls => ⟨h.mem_of_mem ht, hfalls⟩
  omega

end Leads

section Hook

variable (hook : UsedDestroyHook k) {n : Nat}

/-- The fuel is enough for a service: what falls with it is destroyed. -/
def DestroysBy (n : Nat) : Prop :=
  ∀ (d : Destruction) (s : ServiceId), d.Sound k → d.Unused → s ∈ d.state.services →
    s ≠ L.root → k.Unlinked d.state s →
    (∀ t ∈ d.state.services, k.Falls t s → d.state.phase t = .stopped) →
    2 * d.count (k.Falls · s) ≤ n → Destroys k d (destroy hook n d s) (k.Falls · s)

/-- The fuel is enough for the children of a part. -/
def ClearsBy (n : Nat) : Prop :=
  ∀ (d : Destruction) (p : Part), d.Sound k → d.Unused → k.link? p = none →
    (∀ t ∈ d.state.services, k.FallsWith t p → d.state.phase t = .stopped) →
    2 * d.count (k.FallsWith · p) + 1 ≤ n → Destroys k d (clear hook n d p) (k.FallsWith · p)

/-- A part is destroyed with what falls with it, and uses nothing any more. -/
lemma onPartDestroy_destroys (hdestroy : DestroysBy hook n) (hclear : ClearsBy hook n)
    (hd : d.Sound k) (hunused : d.Unused)
    (hstopped : ∀ t ∈ d.state.services, k.FallsWith t p → d.state.phase t = .stopped)
    (hn : 2 * d.count (k.FallsWith · p) + 1 ≤ n) :
    Destroys k d (onPartDestroy k (destroy hook n) (clear hook n) d p) (k.FallsWith · p) ∧
      ∀ u ∈ (onPartDestroy k (destroy hook n) (clear hook n) d p).state.usages, u.user ≠ p := by
  obtain ⟨hdissolve, huser, hsub⟩ := dissolve_leads hd p
  obtain ⟨hstopped', hn'⟩ := hdissolve.ready hstopped hn
  have hunused' : (d.dissolve p).Unused := fun u hu => hunused u (hsub u hu)
  have hservices : ∀ t, t ∈ (d.dissolve p).state.services ↔ t ∈ d.state.services := fun t => by
    simp [hdissolve.services]
  unfold onPartDestroy
  cases hlink : k.link? p with
  | none =>
    obtain ⟨hunused₂, ss, hlead, hss⟩ :=
      hclear (d.dissolve p) p hdissolve.sound hunused' hlink hstopped' hn'
    refine ⟨⟨hunused₂, _, hdissolve.trans hlead, fun t => ?_⟩, hlead.user p huser⟩
    rw [List.nil_append, hss, hservices]
  | some x =>
    -- what falls with a `Link` is what falls with its service
    have hfalls : ∀ t, k.FallsWith t p ↔ k.Falls t x.owner := by
      intro t
      constructor
      · rintro ⟨c, ⟨hne, rfl⟩ | ⟨y, hy, rfl⟩, hc⟩
        · rw [k.childless hne] at hlink
          cases hlink
        · rw [hlink] at hy
          cases hy
          exact hc
      · exact fun h => ⟨x.owner, .inr ⟨x, hlink, rfl⟩, h⟩
    simp only
    split
    · next hinit =>
      have hmem := (Reachable.isInitializedUnsafe_iff hd.reachable).1 hinit
      have hunlinked : k.Unlinked (d.dissolve p).state x.owner := by
        intro q y hy howner
        rw [k.unique hy hlink howner]
        exact huser
      have hcount : (d.dissolve p).count (k.Falls · x.owner) ≤
          (d.dissolve p).count (k.FallsWith · p) :=
        count_le fun t ht h => ⟨ht, (hfalls t).2 h⟩
      obtain ⟨hunused₂, ss, hlead, hss⟩ := hdestroy (d.dissolve p) x.owner hdissolve.sound hunused'
        ((hservices _).2 hmem) (k.owner_ne hlink).2 hunlinked
        (fun t ht h => hstopped' t ht ((hfalls t).2 h)) (by omega)
      refine ⟨⟨hunused₂, _, hdissolve.trans hlead, fun t => ?_⟩, hlead.user p huser⟩
      rw [List.nil_append, hss, hservices]
      exact and_congr_right fun _ => (hfalls t).symm
    · next hinit =>
      have hmem : x.owner ∉ d.state.services := fun h =>
        hinit ((Reachable.isInitializedUnsafe_iff hd.reachable).2 h)
      refine ⟨⟨hunused, [], .refl hd, fun t => ?_⟩, fun u hu huser => ?_⟩
      · simp only [List.not_mem_nil, false_iff, not_and]
        intro ht h
        exact hmem (hd.linked.falls_before hd.reachable ((hfalls t).1 h) ht).1
      · -- a `Link` whose service is gone uses nothing
        rcases hd.linked.usage u hu with ⟨hnone, -⟩ | hused
        · rw [huser, hlink] at hnone
          cases hnone
        · rw [huser, hlink] at hused
          cases hused
          exact hmem (hd.reachable.wellFormed.used_mem u hu)

/-- The parts of a service are destroyed one after the other. -/
lemma parts_destroy (hdestroy : DestroysBy hook n) (hclear : ClearsBy hook n)
    (hd : d.Sound k) (hunused : d.Unused)
    (hstopped : ∀ p ∈ ps, ∀ t ∈ d.state.services, k.FallsWith t p → d.state.phase t = .stopped)
    (hn : ∀ p ∈ ps, 2 * d.count (k.FallsWith · p) + 1 ≤ n) :
    Destroys k d (ps.foldl (onPartDestroy k (destroy hook n) (clear hook n)) d)
        (fun t => ∃ p ∈ ps, k.FallsWith t p) ∧
      ∀ p ∈ ps, ∀ u ∈ (ps.foldl (onPartDestroy k (destroy hook n) (clear hook n)) d).state.usages,
        u.user ≠ p := by
  induction ps generalizing d with
  | nil => exact ⟨⟨hunused, [], .refl hd, by simp⟩, by simp⟩
  | cons p ps ih =>
    obtain ⟨hstoppedp, hstopped⟩ := List.forall_mem_cons.1 hstopped
    obtain ⟨hnp, hn⟩ := List.forall_mem_cons.1 hn
    obtain ⟨⟨hunused₁, ss, hlead, hss⟩, huser⟩ :=
      onPartDestroy_destroys hook hdestroy hclear hd hunused hstoppedp hnp
    obtain ⟨⟨hunused₂, ss', hleads, hss'⟩, husers⟩ := ih hlead.sound hunused₁
      (fun q hq => (hlead.ready (hstopped q hq) (hn q hq)).1)
      (fun q hq => (hlead.ready (hstopped q hq) (hn q hq)).2)
    refine ⟨⟨hunused₂, _, hlead.trans hleads, fun t => ?_⟩, ?_⟩
    · rw [List.mem_append, hss, hss']
      constructor
      · rintro (⟨ht, hfalls⟩ | ⟨ht, q, hq, hfalls⟩)
        · exact ⟨ht, p, List.mem_cons_self, hfalls⟩
        · exact ⟨hlead.mem_of_mem ht, q, List.mem_cons_of_mem _ hq, hfalls⟩
      · rintro ⟨ht, q, hq, hfalls⟩
        by_cases hgone : t ∈ ss
        · exact .inl ((hss t).1 hgone)
        · rcases List.mem_cons.1 hq with rfl | hq
          · exact absurd ((hss t).2 ⟨ht, hfalls⟩) hgone
          · exact .inr ⟨(hlead.services t).2 ⟨ht, hgone⟩, q, hq, hfalls⟩
    · exact List.forall_mem_cons.2 ⟨hleads.user p huser, husers⟩

/-- After the parts, nothing is left that hangs on the service. -/
lemma destroys_succ (hdestroy : DestroysBy hook n) (hclear : ClearsBy hook n) :
    DestroysBy hook (n + 1) := by
  intro d s hd hunused hs hne hunlinked hstopped hn
  have hphase : d.state.phase s = .stopped := hstopped s hs .refl
  rw [destroy, if_pos (by rw [hphase]; rfl)]
  simp only
  have hexports : ∀ p ∈ L.exports s, p ∈ L.parts s := fun p hp => (List.mem_filter.1 hp).1
  have himports : ∀ p ∈ L.imports s, p ∈ L.parts s := fun p hp => (List.mem_filter.1 hp).1
  have hfalls : ∀ p ∈ L.parts s, ∀ t, k.FallsWith t p → k.Falls t s := by
    intro p hp t h
    rw [← L.parts_owner hp]
    exact h.falls
  have hnot : ∀ p ∈ L.parts s, ¬ k.FallsWith s p := fun p hp =>
    hd.linked.not_fallsWith hd.reachable hs (L.parts_owner hp)
  -- what falls with a part is stopped, and it is less than what falls with the service
  have hready : ∀ p ∈ L.parts s,
      (∀ t ∈ d.state.services, k.FallsWith t p → d.state.phase t = .stopped) ∧
        2 * d.count (k.FallsWith · p) + 1 ≤ n := by
    intro p hp
    refine ⟨fun t ht h => hstopped t ht (hfalls p hp t h), ?_⟩
    have hlt : d.count (k.FallsWith · p) < d.count (k.Falls · s) :=
      count_lt (fun t ht h => ⟨ht, hfalls p hp t h⟩) hs .refl fun h => hnot p hp h.2
    omega
  -- the interfaces are revoked
  obtain ⟨hlead₁, hunused₁, hrevoked⟩ := revoke_all hook hd hunused
    fun p (hp : p ∈ k.interfaces s) => (List.mem_filter.1 hp).2
  generalize (k.interfaces s).foldl (revoke hook) d = d₁ at hlead₁ hunused₁ hrevoked
  -- the exports are destroyed, and the imports after them
  have hready₁ := fun p hp => hlead₁.ready (hready p hp).1 (hready p hp).2
  obtain ⟨⟨hunused₂, ss₂, hlead₂, hss₂⟩, -⟩ := parts_destroy hook hdestroy hclear hlead₁.sound
    hunused₁ (fun p hp => (hready₁ p (hexports p hp)).1) fun p hp => (hready₁ p (hexports p hp)).2
  generalize (L.exports s).foldl _ d₁ = d₂ at hunused₂ hlead₂
  have hready₂ := fun p hp => hlead₂.ready (hready₁ p hp).1 (hready₁ p hp).2
  obtain ⟨⟨hunused₃, ss₃, hlead₃, hss₃⟩, husers⟩ := parts_destroy hook hdestroy hclear hlead₂.sound
    hunused₂ (fun p hp => (hready₂ p (himports p hp)).1) fun p hp => (hready₂ p (himports p hp)).2
  generalize (L.imports s).foldl _ d₂ = d₃ at hunused₃ hlead₃ husers
  have hlead := (hlead₁.trans hlead₂).trans hlead₃
  have hiff : ∀ t, t ∈ [] ++ ss₂ ++ ss₃ ↔
      t ∈ d.state.services ∧ ∃ p ∈ L.parts s, k.FallsWith t p := by
    intro t
    rw [List.nil_append, List.mem_append, hss₂, hss₃]
    constructor
    · rintro (⟨ht, p, hp, h⟩ | ⟨ht, p, hp, h⟩)
      · exact ⟨hlead₁.mem_of_mem ht, p, hexports p hp, h⟩
      · exact ⟨hlead₁.mem_of_mem (hlead₂.mem_of_mem ht), p, himports p hp, h⟩
    · rintro ⟨ht, p, hp, h⟩
      have ht₁ : t ∈ d₁.state.services := (hlead₁.services t).2 ⟨ht, List.not_mem_nil⟩
      by_cases hgone : t ∈ ss₂
      · exact .inl ((hss₂ t).1 hgone)
      · have hpart : p ∈ L.imports s := by
          by_contra himport
          refine hgone ((hss₂ t).2 ⟨ht₁, p, List.mem_filter.2 ⟨hp, ?_⟩, h⟩)
          rw [Part.isExport_eq_not, Bool.not_eq_true', ← Bool.not_eq_true]
          exact fun h => himport (List.mem_filter.2 ⟨hp, h⟩)
        exact .inr ⟨(hlead₂.services t).2 ⟨ht₁, hgone⟩, p, hpart, h⟩
  have hs₃ : s ∈ d₃.state.services := by
    refine (hlead.services s).2 ⟨hs, fun hmem => ?_⟩
    obtain ⟨-, p, hp, h⟩ := (hiff s).1 hmem
    exact hnot p hp h
  have hr₃ := hlead.sound.reachable
  have hw₃ := hr₃.wellFormed
  -- whatever hangs on the service is gone
  have hgone : ∀ t ∈ d₃.state.services, ∀ p, p.owner = s → ¬ k.Hangs t p := by
    rintro t ht p rfl hp
    have hparts := Links.Linked.parts_of_hangs hr₃ hp ht
    exact ((hlead.services t).1 ht).2
      ((hiff t).2 ⟨hlead.mem_of_mem ht, p, hparts, t, hp, .refl⟩)
  have hcan : d₃.state.CanDestroy s := by
    have hlayout := State.layout_eq hr₃
    refine ⟨hs₃, by rwa [hlayout], hlead.stopped hne hs₃ fun _ => hphase,
      fun t ht hnet ho => ?_, fun u hu => ⟨fun ho => ?_, fun ho => ?_⟩⟩
    · rw [hlayout] at hnet ho
      exact hgone t ht _ ho (.inl ⟨hnet, rfl⟩)
    · have hexport := hw₃.used_exports u hu
      rw [hlayout, ho] at hexport
      rcases hlead.sound.linked.usage u hu with ⟨-, hinterface⟩ | hlink
      · -- an interface that was revoked
        exact hunused₃ u hu (hlead₃.revoked _ (hlead₂.revoked _
          (hrevoked _ (List.mem_filter.2 ⟨hexport, hinterface⟩))))
      · exact hlead.user _ (hunlinked _ _ hlink ho) u hu rfl
    · -- the part of the usage was dissolved
      have himport := hw₃.user_imports u hu
      rw [hlayout, ho] at himport
      exact husers _ himport u hu rfl
  obtain ⟨hlast, husages⟩ := perform_destroy hlead.sound hcan fun t ht ⟨p, x, hx, ho, hxt⟩ =>
    hgone t ht p ho (.inr ⟨x, hx, hxt⟩)
  refine ⟨fun u hu => ?_, _, hlead.trans hlast, fun t => ?_⟩
  · rw [husages] at hu
    exact hunused₃ u hu
  · rw [List.mem_append, hiff, List.mem_singleton]
    constructor
    · rintro (⟨ht, p, hp, h⟩ | rfl)
      · exact ⟨ht, hfalls p hp t h⟩
      · exact ⟨hs, .refl⟩
    · rintro ⟨ht, h⟩
      by_cases hts : t = s
      · exact .inr hts
      · exact .inl ⟨ht, hd.linked.fallsWith_of_falls hd.reachable h ht hts⟩

/-- The loop over the children of a part. -/
lemma clears_succ (hdestroy : DestroysBy hook n) (hclear : ClearsBy hook n) :
    ClearsBy hook (n + 1) := by
  intro d p hd hunused hlink hstopped hn
  rw [clear]
  cases hchildren : d.state.children p with
  | nil =>
    refine ⟨hunused, [], .refl hd, fun t => ?_⟩
    simp only [List.not_mem_nil, false_iff, not_and]
    rintro ht ⟨c, ⟨hne, hparent⟩ | ⟨x, hx, -⟩, hfalls⟩
    · have hc := (hd.linked.falls_before hd.reachable hfalls ht).1
      have hmem : c ∈ d.state.children p :=
        (Reachable.mem_children hd.reachable).2 ⟨hc, hne, hparent⟩
      rw [hchildren] at hmem
      exact List.not_mem_nil hmem
    · rw [hlink] at hx
      cases hx
  | cons child rest =>
    have hmem : child ∈ d.state.children p := hchildren ▸ List.mem_cons_self
    obtain ⟨hchild, hne, hparent⟩ := (Reachable.mem_children hd.reachable).1 hmem
    have hpart : ∀ t, k.Falls t child → k.FallsWith t p := fun t h =>
      ⟨child, .inl ⟨hne, hparent⟩, h⟩
    obtain ⟨hunused₁, ss, hlead, hss⟩ := hdestroy d child hd hunused hchild hne
      (hd.linked.unlinked_first hd.reachable hchildren)
      (fun t ht h => hstopped t ht (hpart t h))
      ((Nat.mul_le_mul_left 2 (count_le fun t ht h => ⟨ht, hpart t h⟩)).trans
        (Nat.le_of_succ_le_succ hn))
    have hgone : child ∈ ss := (hss child).2 ⟨hchild, .refl⟩
    have hlt : (destroy hook n d child).count (k.FallsWith · p) < d.count (k.FallsWith · p) := by
      refine count_lt (fun t ht h => ⟨hlead.mem_of_mem ht, h⟩) hchild (hpart child .refl)
        fun h => ?_
      exact ((hlead.services child).1 h.1).2 hgone
    obtain ⟨hunused₂, ss', hleads, hss'⟩ := hclear (destroy hook n d child) p hlead.sound hunused₁
      hlink (fun t ht h => hlead.stopped h.ne_root ht fun ht' => hstopped t ht' h) (by omega)
    refine ⟨hunused₂, _, hlead.trans hleads, fun t => ?_⟩
    rw [List.mem_append, hss, hss', hlead.services]
    constructor
    · rintro (⟨ht, h⟩ | ⟨⟨ht, -⟩, h⟩)
      · exact ⟨ht, hpart t h⟩
      · exact ⟨ht, h⟩
    · rintro ⟨ht, h⟩
      by_cases hmem : t ∈ ss
      · exact .inl ((hss t).1 hmem)
      · exact .inr ⟨⟨ht, hmem⟩, h⟩

/-- A destruction destroys what falls with its start, if all of that is stopped. -/
theorem destroys (n : Nat) : DestroysBy hook n ∧ ClearsBy hook n := by
  induction n with
  | zero =>
    refine ⟨fun d s _ _ hs _ _ _ hn => ?_, fun d p _ _ _ _ hn => absurd hn (Nat.not_succ_le_zero _)⟩
    have hpos : (start d.state).count (fun _ => False) < d.count (k.Falls · s) :=
      count_lt (fun _ _ h => h.elim) hs .refl fun h => h.2
    omega
  | succ n ih => exact ⟨destroys_succ hook ih.1 ih.2, clears_succ hook ih.1 ih.2⟩

end Hook

end Destruction

/-! ### Destroying a service that is stopped -/

variable {L : Layout} {k : Links L} {st : State} {s t : ServiceId}

/-- The children of a service that is stopped are stopped. -/
lemma stopped_of_parent (hst : (system L).Reachable (fun st op => op.KeepsCount st) st)
    (ht : t ∈ st.services) (hne : t ≠ L.root)
    (howner : st.phase (L.parent t).owner = .stopped) : st.phase t = .stopped := by
  obtain ⟨⟨extra, hc⟩, -⟩ := reachable_balanced hst
  have hr : Reachable L st := hst.mono fun _ _ _ => trivial
  have hgood := (Reachable.sound hr).good
  rw [← State.layout_eq hr] at hne howner
  by_cases hm : st.layout.isMember t = true
  · -- a member is in the cluster of the owner
    have hcluster : st.cluster t = st.cluster (st.layout.parent t).owner := by
      rw [hr.wellFormed.cluster_eq ht, if_pos hm]
    exact (hgood.stopped (hr.wellFormed.parent_mem ht) howner).2 t ht hcluster
  · -- the owner of the parent of a head runs while the head is locked
    have hhead : st.layout.isClusterHead t = true := by
      rw [Layout.isClusterHead, Part.isExport_eq_not, Bool.not_eq_true']
      exact Bool.not_eq_true _ ▸ hm
    have hnot : (st.phase t).isLocked ≠ true := fun hl => by
      have hrunning : st.phase (st.layout.parent t).owner = .running :=
        hc.held_running (.child t) (Topology.mem_edges_child.2 ⟨ht, hhead, hne⟩) rfl hl
      rw [howner] at hrunning
      cases hrunning
    have hsome : (st.phase t).next?.isSome := (hgood.initialized t).1 ht
    cases hp : st.phase t with
    | stopped => rfl
    | locked | starting | running | stopping | pending =>
      rw [hp] at hnot
      exact absurd rfl hnot
    | uninitialized | onInit | onDestroy | destroyed =>
      rw [hp] at hsome
      cases hsome

/-- What falls with a service that is stopped is stopped, if the services of the links are. -/
lemma stopped_of_falls (hst : (system L).Reachable (fun st op => op.KeepsCount st) st)
    (hk : k.Linked st) (hstopped : st.phase s = .stopped)
    (hlinks : ∀ o, k.Falls o s → ∀ t ∈ st.services, k.Owns o t → st.phase t = .stopped)
    (hfalls : k.Falls t s) (ht : t ∈ st.services) : st.phase t = .stopped := by
  have hr : Reachable L st := hst.mono fun _ _ _ => trivial
  induction hfalls using ReflTransGen.head_induction_on with
  | refl => exact hstopped
  | @head t u hstep hfalls ih =>
    obtain ⟨p, rfl, hp⟩ := hstep
    have howner := ih (hk.before hr hp ht).1
    rcases hp with ⟨hne, rfl⟩ | ⟨x, hx, rfl⟩
    · exact stopped_of_parent hst ht hne howner
    · exact hlinks p.owner hfalls x.owner ht ⟨p, x, hx, rfl, rfl⟩

/-- What falls with `s` is destroyed, each service once and after those that hang on it, by
operations whose preconditions hold. The other services are still there, in their phases but for
the root, which the reports may start; no usage of the destroyed ones is left, and the links are as
they should be. -/
structure Destruction.Cascades (d : Destruction) {L : Layout} (k : Links L) (st : State)
    (s : ServiceId) : Prop where
  admissible : (system L).Admissible (fun _ _ => True) st d.ops
  state : d.state = d.ops.foldl Op.exec st
  mem_iff : ∀ t, t ∈ d.destroyed ↔ t ∈ st.services ∧ k.Falls t s
  nodup : d.destroyed.Nodup
  ordered : d.destroyed.Pairwise fun t u => ¬ ∃ p, p.owner = t ∧ k.Hangs u p
  services : ∀ t, t ∈ d.state.services ↔ t ∈ st.services ∧ ¬ k.Falls t s
  phase : ∀ t ∈ d.state.services, t ≠ L.root → d.state.phase t = st.phase t
  usages : ∀ u ∈ d.state.usages, u.used.owner ∉ d.destroyed ∧ u.user.owner ∉ d.destroyed
  linked : k.Linked d.state

/-- A service that is stopped can be destroyed, whatever hangs on it and whoever uses it. -/
theorem destroy_cascades (hook : UsedDestroyHook k)
    (hst : (system L).Reachable (fun st op => op.KeepsCount st) st) (hk : k.Linked st)
    (hs : s ∈ st.services) (hne : s ≠ L.root) (hunlinked : k.Unlinked st s)
    (hstopped : st.phase s = .stopped)
    (hlinks : ∀ o, k.Falls o s → ∀ t ∈ st.services, k.Owns o t → st.phase t = .stopped) :
    (Destruction.destroy hook (2 * st.services.length) (.start st) s).Cascades k st s := by
  have hr : Reachable L st := hst.mono fun _ _ _ => trivial
  have hcount : (Destruction.start st).count (k.Falls · s) ≤ st.services.length := by
    classical
    exact (Finset.card_filter_le _ _).trans (List.toFinset_card_le _)
  obtain ⟨-, ss, hlead, hss⟩ := (Destruction.destroys hook _).1 (.start st) s
    ⟨hr, hk, fun _ h => absurd h List.not_mem_nil⟩ (fun u _ => List.not_mem_nil) hs hne hunlinked
    (fun t ht h => stopped_of_falls hst hk hstopped hlinks h ht) (Nat.mul_le_mul_left 2 hcount)
  obtain ⟨ops, hops, hstate, has, hfilter⟩ := hlead.run
  have hops : (Destruction.destroy hook (2 * st.services.length) (.start st) s).ops = ops := hops
  have hdestroyed : (Destruction.destroy hook (2 * st.services.length) (.start st) s).destroyed =
      ss := by
    rw [Destruction.destroyed, hops, hfilter]
  refine ⟨hops ▸ has, hops ▸ hstate, hdestroyed ▸ hss, hdestroyed ▸ hlead.nodup,
    hdestroyed ▸ hlead.ordered, fun t => ?_, hlead.phase, fun u hu => ?_, hlead.sound.linked⟩
  · rw [hlead.services]
    exact ⟨fun h => ⟨h.1, fun hb => h.2 ((hss t).2 ⟨h.1, hb⟩)⟩,
      fun h => ⟨h.1, fun hmem => h.2 ((hss t).1 hmem).2⟩⟩
  · have hw := hlead.sound.reachable.wellFormed
    rw [hdestroyed]
    exact ⟨((hlead.services _).1 (hw.used_mem u hu)).2, ((hlead.services _).1 (hw.user_mem u hu)).2⟩

/-- The usages after a `Dependency` has let go of one. -/
lemma unsatisfied_usages (hst : Reachable L st) (u : Usage) :
    ([Op.setSatisfied u.user false, .disconnect u].foldl Op.exec st).usages =
      st.usages.erase u := by
  have hw := hst.wellFormed
  have htop := State.setSatisfied_topology hw u.user false
  have htree : (st.setSatisfied State.onServiceStartable u.user false).IsTree := by
    rw [htop]
    exact hw.toIsTree
  have hdisconnect := State.disconnect_topology htree u
  show ((st.setSatisfied State.onServiceStartable u.user false).disconnect
    State.onServiceStartable u).usages = _
  rw [hdisconnect, htop]
  rfl

/-- `DependencyBase::onUsedDestroy` when there is no other interface. -/
def UsedDestroyHook.unsatisfied (k : Links L) : UsedDestroyHook k where
  onUsedDestroy _ _ u := [.setSatisfied u.user false, .disconnect u]
  rewires revoked st u op hop := by
    rcases List.mem_cons.1 hop with rfl | hop
    · trivial
    · rw [List.mem_singleton.1 hop]
      trivial
  admissible revoked st u hst hu hr := by
    have hw := hst.wellFormed
    refine ⟨⟨hw.user_mem u hu, hw.user_imports u hu⟩, trivial, ?_, trivial, trivial⟩
    have husages : (st.setSatisfied State.onServiceStartable u.user false).usages = st.usages :=
      congrArg Topology.usages (State.setSatisfied_topology hw u.user false)
    show u ∈ (st.setSatisfied State.onServiceStartable u.user false).usages
    rw [husages]
    exact hu
  usages revoked st u hst hu hr v hv := by
    rw [unsatisfied_usages hst u] at hv
    exact .inl (hst.wellFormed.usages_nodup'.mem_erase_iff.1 hv).symm
  others revoked st u hst hu hr v hv hne := by
    rw [unsatisfied_usages hst u]
    exact hst.wellFormed.usages_nodup'.mem_erase_iff.2 ⟨hne, hv⟩

/-- Service 5 owns a `Link` whose service is 1. -/
def nestedLinks : Links .nested where
  isInterface p := p != Layout.exportOf 1
  link? p := if p = Layout.importOf 5 then some (Layout.exportOf 1) else none
  not_interface {p x} h := by
    obtain ⟨-, hx⟩ := Option.ite_none_right_eq_some.1 h
    cases hx
    rfl
  mem_imports {p x} h := by
    obtain ⟨rfl, -⟩ := Option.ite_none_right_eq_some.1 h
    decide
  parent_eq {p x} h := by
    obtain ⟨rfl, hx⟩ := Option.ite_none_right_eq_some.1 h
    cases hx
    rfl
  owner_ne {p x} h := by
    obtain ⟨rfl, hx⟩ := Option.ite_none_right_eq_some.1 h
    cases hx
    decide
  unique {p q x y} hp hq _ :=
    (Option.ite_none_right_eq_some.1 hp).1.trans (Option.ite_none_right_eq_some.1 hq).1.symm
  childless {t} _ := by
    refine if_neg fun h => ?_
    have hexport : (Layout.nested.parent t).isExport = true := by
      simp only [Layout.nested, Layout.small]
      split_ifs <;> rfl
    rw [h] at hexport
    cases hexport

lemma nestedLinks_owns {o t : ServiceId} (h : nestedLinks.Owns o t) : o = 5 ∧ t = 1 := by
  obtain ⟨p, x, hx, rfl, rfl⟩ := h
  obtain ⟨rfl, hx⟩ := Option.ite_none_right_eq_some.1 hx
  cases hx
  exact ⟨rfl, rfl⟩

/-- The usage of the `Link`. -/
def linkUsage15 : Usage := ⟨0, Layout.exportOf 1, Layout.importOf 5, false⟩

/-- A strong usage of service 5. -/
def strongUsage54 : Usage := ⟨1, Layout.exportOf 5, Layout.importOf 4, false⟩

/-- Service 1 was put beside service 5, which service 4 uses, and service 2 is below service 1. -/
def linkedRun : List Op :=
  [.init 4, .init 5, .init 1, .connect linkUsage15, .init 2, .connect strongUsage54]

/-- The destruction of service 5. -/
def linkedDestruction : Destruction :=
  Destruction.destroy (.unsatisfied nestedLinks)
    (2 * (State.after .nested linkedRun).services.length)
    (.start (.after .nested linkedRun)) 5

lemma linkedRun_linked : nestedLinks.Linked (.after .nested linkedRun) where
  usage := by decide +kernel
  owner_mem p x hx _ := by
    rw [(nestedLinks_owns ⟨p, x, hx, rfl, rfl⟩).1]
    decide +kernel
  ordered := by
    have hordered : (State.after .nested linkedRun).services.Pairwise fun t o =>
        ¬ (o = 5 ∧ t = 1) := by
      decide +kernel
    exact hordered.imp fun hne h => hne (nestedLinks_owns h)

theorem destroy_cascades_linkedRun :
    linkedDestruction.destroyed = [2, 1, 5] ∧
      linkedDestruction.Cascades nestedLinks (.after .nested linkedRun) 5 := by
  refine ⟨by decide +kernel, destroy_cascades (.unsatisfied nestedLinks)
    (Machine.Reachable.run (.init rfl) (by decide +kernel)) linkedRun_linked (by decide +kernel)
    (by decide) (fun p x hx h => ?_) (by decide +kernel) fun o _ t _ h => ?_⟩
  · have hx := (nestedLinks_owns ⟨p, x, hx, rfl, rfl⟩).2
    rw [h] at hx
    cases hx
  · rw [(nestedLinks_owns h).2]
    decide +kernel

end Idle
