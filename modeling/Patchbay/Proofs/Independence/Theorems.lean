import Patchbay.Proofs.Independence.Zones

namespace Patchbay

open Act

namespace Node

section Congr

variable {gone gone' : NodeId → Bool} {nodes : List Node}

theorem stopAllSteps_congr
    (h : ∀ node ∈ nodes, ∀ time, node.stopSteps gone' time = node.stopSteps gone time) (time : Float) :
    stopAllSteps gone' nodes time = stopAllSteps gone nodes time := by
  induction nodes with
  | nil => rfl
  | cons node rest ih =>
      have hrest := ih fun other hother => h other (List.mem_cons_of_mem node hother)
      rw [stopAllSteps, stopAllSteps, hrest, h node List.mem_cons_self]

theorem chainSteps_congr
    (h : ∀ node ∈ nodes, ∀ time, node.stopSteps gone' time = node.stopSteps gone time) (time : Float) :
    chainSteps gone' nodes time = chainSteps gone nodes time := by
  induction nodes with
  | nil => rfl
  | cons node rest ih =>
      have hrest := ih fun other hother => h other (List.mem_cons_of_mem node hother)
      rw [chainSteps, chainSteps, hrest, h node List.mem_cons_self]

-- The steps depend on what is disconnected of that which the node reaches.
theorem stopSteps_congr {node : Node} (h : ∀ inner ∈ node.reach, gone' inner.id = gone inner.id)
    (time : Float) : node.stopSteps gone' time = node.stopSteps gone time := by
  induction node using induct generalizing time with
  | step node ih =>
      have hparts (part : Node) (hpart : part ∈ node.parts) (time : Float) :
          part.stopSteps gone' time = part.stopSteps gone time :=
        ih part hpart (fun inner hinner => h inner (reach_trans hinner (part_mem_reach hpart))) time
      have hall := stopAllSteps_congr hparts time
      have hself := h node node.self_mem_reach
      cases node with
      | leaf info host source params modulators =>
          rw [parts] at hall
          rw [stopSteps, stopSteps, hself, hall]
      | envelope info host attack release => rw [stopSteps, stopSteps, hself]
      | series info head tail =>
          have htail := chainSteps_congr
            (fun part hpart => hparts part (List.mem_cons_of_mem head hpart)) time
          rw [stopSteps, stopSteps, hself, htail, hparts head List.mem_cons_self]
      | parallel info input output branches =>
          rw [parts] at hall
          rw [stopSteps, stopSteps, hself, hall]
      | wrapped info inner others =>
          rw [parts, stopAllSteps, stopAllSteps] at hall
          rw [stopSteps, stopSteps, hself, hall]

theorem startSteps_congr {node : Node} (h : ∀ inner ∈ node.reach, gone' inner.id = gone inner.id)
    (time : Float) : node.startSteps gone' time = node.startSteps gone time := by
  induction node using induct with
  | step node ih =>
      have hparts {nodes : List Node} (hnodes : nodes ⊆ node.parts) :
          startAllSteps gone' nodes time = startAllSteps gone nodes time := by
        induction nodes with
        | nil => rfl
        | cons part rest ih' =>
            obtain ⟨hpart, hrest⟩ := List.cons_subset.1 hnodes
            have hfirst := ih part hpart fun inner hinner =>
              h inner (reach_trans hinner (part_mem_reach hpart))
            rw [startAllSteps, startAllSteps, hfirst, ih' hrest]
      have hend : node.endSteps gone' time = node.endSteps gone time := by
        unfold endSteps
        split
        case h_1 => exact stopSteps_congr h _
        case h_2 => rfl
      rw [startSteps_eq, startSteps_eq, hparts (List.Subset.refl _), hend]

end Congr

end Node

namespace Zone

-- All that the node reaches is in the zone, with the host nodes that it has to do with.
structure Covers (Z : Zone) (root : Node) : Prop where
  nodes : ∀ inner ∈ root.reach, Z.nodes inner.id
  hosts : ∀ inner ∈ root.reach, ∀ host ∈ inner.cutHosts, Z.hosts inner.context host
  sources : ∀ inner ∈ root.reach, ∀ host, inner.source? = some host → Z.hosts inner.context host

variable {Z : Zone} {s s' : Studio} {context : ContextId} {own : HostId} {root node : Node}
  {α : Type}

theorem Agree.gone (h : Z.Agree s s') {id : NodeId} (hid : Z.nodes id) : s'.gone id = s.gone id := by
  simp only [Studio.gone, Studio.ledger, h.nodes id hid]

theorem twin_checkTime (node : Node) (time : Float) :
    Z.Twin (node.checkTime time) (node.checkTime time) s s' := by
  unfold Node.checkTime
  split
  case isTrue => exact twin_throw _
  case isFalse => exact twin_pure _

theorem twin_schedule (contour : Contour) (param : Param) (time : Float) (hown : Z.hosts context own) :
    Z.Twin (contour.schedule context own param time) (contour.schedule context own param time) s s' := by
  have hstages (stages : List Stage) : ∀ (time : Float) (s s' : Studio),
      Z.Twin (Contour.scheduleStages context own param time stages)
        (Contour.scheduleStages context own param time stages) s s' := by
    induction stages with
    | nil => exact fun _ _ _ => twin_pure _
    | cons stage rest ih =>
        intro time s s'
        refine twin_bind (twin_host (Engine.confined_schedule param _) hown) fun _ t t' _ _ => ?_
        exact ih _ t t'
  exact twin_now (hstages contour.stages _ s s')

theorem twin_startSource (hnode : Z.nodes node.id) (hown : Z.hosts node.context own) (time : Float) :
    Z.Twin (node.startSource own time) (node.startSource own time) s s' := by
  refine twin_read (twin_ite (fun hs => by rw [hs.state hnode]) (twin_pure _) ?_)
  refine twin_bind (twin_changeNode hnode _) fun _ t t' _ _ => ?_
  exact twin_host (Engine.confined_start time) hown

theorem twin_stopSource (hnode : Z.nodes node.id) (hown : Z.hosts node.context own) (time : Float) :
    Z.Twin (node.stopSource own time) (node.stopSource own time) s s' := by
  refine twin_read (twin_ite (fun hs => by rw [hs.state hnode]) ?_ (twin_pure _))
  exact twin_host (Engine.confined_stop time) hown

section Covers

variable (hZ : Z.Covers root)
include hZ

theorem twin_startOwn (hnode : node ∈ root.reach) (time : Float) :
    Z.Twin (node.startOwn time) (node.startOwn time) s s' := by
  have hid := hZ.nodes node hnode
  cases node with
  | leaf info host source params modulators =>
      cases source with
      | true => exact twin_startSource hid (hZ.sources _ hnode host rfl) time
      | false => exact twin_pure _
  | envelope info host attack release =>
      refine twin_bind (twin_changeNode hid _) fun _ t t' _ _ => ?_
      exact twin_schedule attack .gain time (hZ.hosts _ hnode host List.mem_cons_self)
  | series | parallel | wrapped => exact twin_pure _

theorem twin_stopOwn (hnode : node ∈ root.reach) (time : Float) :
    Z.Twin (node.stopOwn time) (node.stopOwn time) s s' := by
  have hid := hZ.nodes node hnode
  cases node with
  | leaf info host source params modulators =>
      cases source with
      | true => exact twin_stopSource hid (hZ.sources _ hnode host rfl) time
      | false => exact twin_pure _
  | envelope info host attack release =>
      cases release with
      | none => exact twin_pure _
      | some release =>
          exact twin_schedule release .gain time (hZ.hosts _ hnode host List.mem_cons_self)
  | series | parallel | wrapped => exact twin_pure _

theorem twin_steps {steps : List Step} (hsteps : Node.About root steps) :
    Z.Twin (do steps.forM Step.act; return () : Act Unit) (do steps.forM Step.act; return ()) s s' := by
  refine twin_bind (twin_forM fun step hstep t t' => ?_) fun _ _ _ _ _ => twin_pure _
  have hnode := hsteps step hstep
  cases step with
  | check node time => exact twin_checkTime node time
  | begin node time => exact twin_startOwn hZ hnode time
  | cease node time => exact twin_stopOwn hZ hnode time

theorem twin_start (time : Float) : Z.Twin (root.start time) (root.start time) s s' := by
  have hsteps : Node.About root (root.startSteps s.gone time) :=
    Node.about_startSteps root.self_mem_reach time
  refine (twin_steps hZ hsteps).of_eq (Node.does_start root time s rfl) fun hs => ?_
  rw [← Node.startSteps_congr (fun inner hinner => hs.gone (hZ.nodes inner hinner)) time]
  exact Node.does_start root time s' rfl

theorem twin_stop (time : Float) : Z.Twin (root.stop time) (root.stop time) s s' := by
  have hsteps : Node.About root (root.stopSteps s.gone time) :=
    Node.about_stopSteps root.self_mem_reach time
  refine (twin_steps hZ hsteps).of_eq (Node.does_stop root time s rfl) fun hs => ?_
  rw [← Node.stopSteps_congr (fun inner hinner => hs.gone (hZ.nodes inner hinner)) time]
  exact Node.does_stop root time s' rfl

-- A disconnection comes to all that the node reaches.
theorem twin_disconnect (hnode : node ∈ root.reach) :
    Z.Twin node.disconnect node.disconnect s s' := by
  induction node using Node.induct generalizing s s' with
  | step node ih =>
      have hid := hZ.nodes node hnode
      have hparts {nodes : List Node} (hnodes : nodes ⊆ node.parts) : ∀ t t',
          Z.Twin (Node.disconnectAll nodes) (Node.disconnectAll nodes) t t' := by
        induction nodes with
        | nil => exact fun _ _ => twin_pure _
        | cons part rest ih' =>
            obtain ⟨hpart, hrest⟩ := List.cons_subset.1 hnodes
            intro t t'
            rw [Node.disconnectAll]
            refine twin_bind (ih part hpart ?_) fun _ u u' _ _ => ih' hrest u u'
            exact Node.reach_trans (Node.part_mem_reach hpart) hnode
      rw [Node.disconnect_eq]
      refine twin_read (twin_ite (fun hs => by rw [hs.state hid]) (twin_pure _) ?_)
      refine twin_bind (twin_changeNode hid _) fun _ t t' _ _ => ?_
      refine twin_bind (twin_forM fun host hhost _ _ => ?_) fun _ u u' _ _ => ?_
      · exact twin_host Engine.confined_disconnect (hZ.hosts node hnode host hhost)
      · refine twin_bind (hparts (List.Subset.refl _) u u') fun _ v v' _ _ => ?_
        exact twin_changeNode hid _

end Covers

end Zone

theorem Observer.react_of_none {observer : Observer} (h : observer.react.1 = none) :
    observer.react = (none, observer) := by
  unfold react at h ⊢
  split at h
  case h_1 => cases h
  case h_2 => rfl

namespace Instrument

variable {inst : Instrument} {node : Node} {voice : Voice}

theorem Passive.observing (h : inst.Passive) (topic : Topic) {list : List Observer}
    (hlist : ∀ observer ∈ list, observer.react.1 = none) : (inst.observing topic list).Passive := by
  intro other observer hobserver
  rw [Instrument.observing] at hobserver
  dsimp only at hobserver
  split at hobserver
  case isTrue => exact hlist observer hobserver
  case isFalse => exact h other observer hobserver

-- Observers that do nothing only hear what they are told.
theorem mapM_tell (emit : Emit) (k : InstrumentId) (event : Event) {observers : List Observer}
    (h : ∀ observer ∈ observers, observer.react.1 = none) :
    observers.mapM (tell emit k event) = (do
      observers.forM fun observer => hear (.observed observer.tag event)
      return observers) := by
  induction observers with
  | nil => rfl
  | cons observer rest ih =>
      have hreact := Observer.react_of_none (h observer List.mem_cons_self)
      rw [List.mapM_cons, ih fun other hother => h other (List.mem_cons_of_mem observer hother), tell,
        hreact]
      simp

theorem voice?_roster (inst : Instrument) (id : VoiceId) :
    inst.roster.voice? id = (inst.voice? id).map Voice.node := by
  simp [Roster.voice?, roster, voice?, List.find?_map, Function.comp_def]

-- The next voice is that of the node that is registered for it.
theorem node_of_register (h : inst.roster.Ordered)
    (hvoice : (inst.register node).voice? inst.nextId = some voice) : voice.node = node := by
  have hroster := voice?_roster (inst.register node) inst.nextId
  have hlast : inst.nextId = inst.roster.played.length := rfl
  rw [roster_register, h.voice?_play, if_pos hlast, hvoice] at hroster
  exact (Option.some_inj.1 hroster).symm

-- It plays nowhere, to nobody who answers, and as many voices as there are.
structure Bare (inst : Instrument) : Prop where
  destination : inst.destination = none
  uncapped : inst.maxVoices = 0
  passive : inst.Passive

end Instrument

namespace Zone

variable {Z : Zone} {s s' : Studio} {k : InstrumentId} {node : Node} {emit emit' : Instrument.Emit}
  (hk : Z.instruments k)
include hk

theorem twin_deliver (event : Event) :
    Z.Twin (Instrument.deliver emit k event) (Instrument.deliver emit' k event) s s' := by
  have hnote : ∀ inst : Instrument, inst.Passive → (inst.note event).Passive := fun _ h => h
  refine twin_bind (twin_changeInstrument hk hnote) fun _ t t' _ _ => ?_
  refine twin_instrument hk fun hpassive => ?_
  have haside : ∀ inst : Instrument, inst.Passive → (inst.observing event.topic []).Passive :=
    fun _ h => h.observing event.topic (by simp)
  refine twin_bind (twin_changeInstrument hk haside) fun _ u u' _ _ => ?_
  rw [Instrument.mapM_tell emit k event (hpassive event.topic),
    Instrument.mapM_tell emit' k event (hpassive event.topic)]
  simp only [bind_assoc, pure_bind]
  refine twin_bind (twin_forM fun observer _ _ _ => twin_hear _) fun _ v v' _ _ => ?_
  refine twin_changeInstrument hk fun inst h => h.observing event.topic fun observer hobserver => ?_
  exact (List.mem_append.1 hobserver).elim (hpassive event.topic observer) (h event.topic observer)

theorem twin_emitAt (depth depth' : Nat) (event : Event) :
    Z.Twin (Instrument.emitAt depth k event) (Instrument.emitAt depth' k event) s s' := by
  cases depth <;> cases depth' <;> exact twin_deliver hk event

variable (hemit : ∀ event s s', Z.Twin (emit k event) (emit' k event) s s')
include hemit

theorem twin_countVoices :
    Z.Twin (Instrument.countVoices emit k) (Instrument.countVoices emit' k) s s' :=
  twin_instrument hk fun _ => hemit _ s s'

variable (hZ : Z.Covers node)
include hZ

theorem twin_remove (id : VoiceId)
    (hvoice : ∀ voice, (s.instrument k).voice? id = some voice → voice.node = node) :
    Z.Twin (Instrument.remove emit k id) (Instrument.remove emit' k id) s s' := by
  refine twin_instrument hk fun _ => ?_
  split
  case h_1 => exact twin_pure _
  case h_2 voice hfound =>
      rw [hvoice voice hfound]
      refine twin_bind (twin_changeInstrument hk fun _ h => h) fun _ t t' _ _ => ?_
      refine twin_bind (twin_catch (twin_disconnect hZ node.self_mem_reach) fun e _ _ => twin_warn _)
        fun _ u u' _ _ => ?_
      exact twin_bind (hemit _ u u') fun _ v v' _ _ => twin_countVoices hk hemit

theorem twin_track (hordered : (s.instrument k).roster.Ordered) :
    Z.Twin (Instrument.track emit k node) (Instrument.track emit' k node) s s' := by
  have hid := hZ.nodes node node.self_mem_reach
  refine twin_instrument hk fun _ => ?_
  refine twin_bind (twin_changeInstrument hk fun _ h => h) fun _ t t' ht _ => ?_
  obtain rfl := after_of_ok ht
  refine twin_bind (twin_changeNode hid _) fun _ u u' hu _ => ?_
  obtain rfl := after_of_ok hu
  refine twin_read (twin_ite (fun hs => by rw [hs.state hid]) ?_ ?_)
  · -- Its node has ended before, so the voice leaves at once.
    refine twin_bind (twin_remove hk hemit hZ _ fun voice hvoice => ?_) fun _ _ _ _ _ => twin_pure _
    change (({ s with instruments := s.instruments.modify k (·.register node) } :
      Studio).instrument k).voice? (s.instrument k).nextId = some voice at hvoice
    rw [s.instrument_modify] at hvoice
    split at hvoice
    case isTrue => exact Instrument.node_of_register hordered hvoice
    case isFalse hout =>
        have hnew : s.instrument k = .new 0 := by
          rw [Studio.instrument, Array.getElem?_eq_none (by simpa using hout)]
          rfl
        rw [hnew] at hvoice
        cases hvoice
  · exact twin_bind (twin_changeNode hid _) fun _ _ _ _ _ => twin_pure _

theorem twin_enter (hordered : (s.instrument k).roster.Ordered) (time : Float)
    (duration : Option Float) : Z.Twin (Instrument.enter emit k node time duration)
      (Instrument.enter emit' k node time duration) s s' := by
  have hsound (t t' : Studio) : Z.Twin (Instrument.sound node time duration)
      (Instrument.sound node time duration) t t' := by
    refine twin_bind (twin_start hZ time) fun _ u u' _ _ => ?_
    split
    case h_1 length _ => exact twin_stop hZ (time + length)
    case h_2 => exact twin_pure _
  refine twin_bind (twin_track hk hemit hZ hordered) fun id t t' _ _ => ?_
  refine twin_bind (hsound t t') fun _ u u' _ _ => twin_bind (hemit _ u u') fun _ v v' _ _ => ?_
  exact twin_bind (twin_countVoices hk hemit) fun _ _ _ _ _ => twin_pure _

omit hemit in
theorem twin_play (hbare : (s.instrument k).Bare) (hordered : (s.instrument k).roster.Ordered)
    (time delay duration : Option Float) :
    Z.Twin (Instrument.start k (.node node) time delay duration)
      (Instrument.start k (.node node) time delay duration) s s' := by
  have hready : (s.instrument k).ready (.node node) = pure node := by
    rw [Instrument.ready, hbare.destination]
    rfl
  -- There is no voice too many.
  have hsteal {t : Studio} (ht : t.instrument k = s.instrument k) (x : Float) :
      Instrument.steal k x t = .ok () t := by
    have hexcess : (t.instrument k).excess = [] := by
      rw [ht, Instrument.excess, if_pos hbare.uncapped]
    change Instrument.stopEach k (fun _ => return x) (t.instrument k).excess t = _
    rw [hexcess]
    rfl
  have hplay (depth depth' : Nat) :
      Z.Twin (Instrument.startWith (Instrument.emitAt depth) k (.node node) time delay duration)
        (Instrument.startWith (Instrument.emitAt depth') k (.node node) time delay duration) s s' := by
    rw [Instrument.startWith_eq, Instrument.startWith_eq]
    refine twin_instrument hk fun _ => ?_
    rw [hready, pure_bind, pure_bind]
    refine twin_now ?_
    refine twin_skip (hsteal rfl _) (fun hs => hsteal (hs.instrument hk) _) ?_
    exact twin_enter hk (fun event _ _ => twin_emitAt hk depth depth' event) hZ hordered _ duration
  exact (hplay s.credit s'.credit).of_eq rfl fun _ => rfl

end Zone

-- What a node can be given to do; one that is played is given to an instrument.
inductive Task where
  | start (time : Float)
  | stop (time : Float)
  | play (inst : InstrumentId) (time delay duration : Option Float)

namespace Task

variable {node other : Node} {task job : Task} {s : Studio}

-- A played node is handed back.
def act (node : Node) : Task → Act (Option Node)
  | .start time => do
    node.start time
    return none
  | .stop time => do
    node.stop time
    return none
  | .play inst time delay duration => some <$> Instrument.start inst (.node node) time delay duration

def instrument? : Task → Option InstrumentId
  | .play inst _ _ _ => some inst
  | .start _ | .stop _ => none

-- All that the node reaches, with its host nodes, and the instrument that it is played on.
def zone (node : Node) (task : Task) : Zone where
  nodes id := ∃ inner ∈ node.reach, inner.id = id
  hosts c host := ∃ inner ∈ node.reach, inner.context = c ∧ host ∈ inner.cutHosts
  instruments k := task.instrument? = some k

section Zones

variable (hs : Housed s) (hsound : s.ledger.Sound 0) (hknown : s.ledger.Knows node)
include hs hsound hknown

theorem covers_zone (task : Task) : (task.zone node).Covers node where
  nodes inner hinner := ⟨inner, hinner, rfl⟩
  hosts inner hinner host hhost := ⟨inner, hinner, rfl, hhost⟩
  sources inner hinner host hsource := by
    have hformed := hsound.formed (hsound.knows_of_reach hknown hinner)
    refine ⟨inner, hinner, rfl, Node.mem_cutHosts_of_own (Node.mem_ownHosts_of_source hsource) ?_⟩
    exact hs.ne_destination hformed hsource

-- Nodes that reach nothing in common share no host node either.
theorem apart_zone (hother : s.ledger.Knows other)
    (hapart : ∀ inner ∈ node.reach, ∀ member ∈ other.reach, inner.id ≠ member.id)
    (hdiffer : ∀ k ∈ task.instrument?, k ∉ job.instrument?) :
    (task.zone node).Apart (job.zone other) where
  nodes := by
    rintro id ⟨inner, hinner, rfl⟩ ⟨member, hmember, hid⟩
    exact hapart inner hinner member hmember hid.symm
  hosts := by
    rintro c host ⟨inner, hinner, rfl, hhost⟩ ⟨member, hmember, hcontext, hhost'⟩
    have hthere := hsound.knows_of_reach hknown hinner
    have hthere' := hsound.knows_of_reach hother hmember
    refine hapart inner hinner member hmember ?_
    exact hs.apart inner.id member.id inner member (Studio.node?_of_knows hthere)
      (Studio.node?_of_knows hthere') (hsound.formed hthere).opened hcontext host hhost hhost'
  instruments k hk hk' := hdiffer k hk hk'

end Zones

theorem twin_act {Z : Zone} (hZ : Z.Covers node) (hk : ∀ k ∈ task.instrument?, Z.instruments k)
    (hbare : ∀ k ∈ task.instrument?, (s.instrument k).Bare)
    (hordered : ∀ k, (s.instrument k).roster.Ordered) (t : Studio) :
    Z.Twin (task.act node) (task.act node) s t := by
  cases task with
  | start time => exact Zone.twin_bind (Zone.twin_start hZ time) fun _ _ _ _ _ => Zone.twin_pure _
  | stop time => exact Zone.twin_bind (Zone.twin_stop hZ time) fun _ _ _ _ _ => Zone.twin_pure _
  | play inst time delay duration =>
      refine Zone.twin_bind ?_ fun _ _ _ _ _ => Zone.twin_pure _
      exact Zone.twin_play (hk inst rfl) hZ (hbare inst rfl) (hordered inst) time delay duration

end Task

namespace Session

-- Two nodes that reach nothing in common are each given a task; an instrument that one of them is
-- played on is bare, and the other is not played on it. Either task comes out the same whether the
-- other was done before it or not, and in either order they leave the same behind.
theorem independent (rate : Float) (commands : List Command) {id id' : NodeId} {node other : Node}
    (hnode : (run rate commands).studio.node? id = some node)
    (hother : (run rate commands).studio.node? id' = some other)
    (hapart : ∀ inner ∈ node.reach, ∀ member ∈ other.reach, inner.id ≠ member.id) (task job : Task)
    (hbare : ∀ k ∈ task.instrument?, ((run rate commands).studio.instrument k).Bare)
    (hbare' : ∀ k ∈ job.instrument?, ((run rate commands).studio.instrument k).Bare)
    (hdiffer : ∀ k ∈ task.instrument?, k ∉ job.instrument?) :
    let s := (run rate commands).studio
    (task.act node).outcome ((job.act other).after s) = (task.act node).outcome s ∧
    (job.act other).outcome ((task.act node).after s) = (job.act other).outcome s ∧
    ((job.act other).after ((task.act node).after s)).Alike
      ((task.act node).after ((job.act other).after s)) := by
  intro s
  have hlawful := lawful_run rate commands
  have hsound : s.ledger.Sound 0 := hlawful.sound
  have hhoused : Housed s := housed_run rate commands
  have hknown := (Studio.offers_of_node hsound hnode).1.known
  have hknown' := (Studio.offers_of_node hsound hother).1.known
  have hordered (k : InstrumentId) : (s.instrument k).roster.Ordered :=
    s.rosterOf_eq k ▸ hlawful.registry.ordered k
  refine (Task.apart_zone hhoused hsound hknown hknown' hapart hdiffer).commute ?_ ?_ ?_ ?_
  · exact Task.twin_act (Task.covers_zone hhoused hsound hknown task) (fun _ hk => hk) hbare hordered
  · exact Task.twin_act (Task.covers_zone hhoused hsound hknown' job) (fun _ hk => hk) hbare' hordered
  · exact fun k hk => (hbare k hk).passive
  · exact fun k hk => (hbare' k hk).passive

-- A tone through an envelope that lasts as long as there are times, and another through a short one,
-- each for an instrument of its own that somebody listens to.
def duet : List Command := [
  .make 0 (.oscillator .sine (.fixed 440) none),
  .make 0 (.percussive (some 0) (some 1e308)),
  .make 0 (.series 0 [1]),
  .make 0 (.constant 1),
  .make 0 (.percussive (some 0) (some 1)),
  .make 0 (.series 3 [4]),
  .instrument 0 false none none 0,
  .instrument 0 false none none 0,
  .observe 0 .started (.plain "first"),
  .observe 1 .started (.plain "second")]

-- The voice of the first is registered before its start fails; the second plays either way.
theorem duet_played_apart : ∃ node other, (run 44100 duet).studio.node? 2 = some node ∧
    (run 44100 duet).studio.node? 5 = some other ∧
    let s := (run 44100 duet).studio
    let first : Task := .play 0 (some 1e308) none none
    let second : Task := .play 1 none none (some 1)
    (first.act node).succeeds s = false ∧ (second.act other).succeeds s = true ∧
    (first.act node).outcome ((second.act other).after s) = (first.act node).outcome s ∧
    (second.act other).outcome ((first.act node).after s) = (second.act other).outcome s ∧
    ((second.act other).after ((first.act node).after s)).Alike
      ((first.act node).after ((second.act other).after s)) := by
  have hsome : ((run 44100 duet).studio.node? 2).isSome = true ∧
      ((run 44100 duet).studio.node? 5).isSome = true := by decide +kernel
  obtain ⟨node, hnode⟩ := Option.isSome_iff_exists.1 hsome.1
  obtain ⟨other, hother⟩ := Option.isSome_iff_exists.1 hsome.2
  have hfacts : ∀ node ∈ (run 44100 duet).studio.node? 2,
      ∀ other ∈ (run 44100 duet).studio.node? 5,
        (∀ inner ∈ node.reach, ∀ member ∈ other.reach, inner.id ≠ member.id) ∧
        ((Task.play 0 (some 1e308) none none).act node).succeeds (run 44100 duet).studio = false ∧
        ((Task.play 1 none none (some 1)).act other).succeeds (run 44100 duet).studio = true := by
    decide +kernel
  obtain ⟨hapart, hfails, hplays⟩ := hfacts node hnode other hother
  have hbare : ∀ k ∈ [0, 1], ((run 44100 duet).studio.instrument k).destination.isNone = true ∧
      ((run 44100 duet).studio.instrument k).maxVoices = 0 ∧
      ∀ topic ∈ [Topic.started, .voices, .ended],
        ∀ observer ∈ ((run 44100 duet).studio.instrument k).observers topic,
          observer.react.1.isNone = true := by decide +kernel
  have hbare (k : InstrumentId) (hk : k ∈ [0, 1]) : ((run 44100 duet).studio.instrument k).Bare := by
    obtain ⟨hdestination, huncapped, hpassive⟩ := hbare k hk
    refine ⟨Option.isNone_iff_eq_none.1 hdestination, huncapped, fun topic observer hobserver => ?_⟩
    exact Option.isNone_iff_eq_none.1 (hpassive topic (by cases topic <;> decide) observer hobserver)
  refine ⟨node, other, hnode, hother, hfails, hplays, ?_⟩
  refine independent 44100 duet hnode hother hapart (.play 0 (some 1e308) none none)
    (.play 1 none none (some 1)) ?_ ?_ ?_
  · rintro k ⟨⟩
    exact hbare 0 (by decide)
  · rintro k ⟨⟩
    exact hbare 1 (by decide)
  · rintro k ⟨⟩ h
    cases h

end Session

end Patchbay
