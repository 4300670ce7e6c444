import Patchbay.Proofs.Voices.Stealing
import Patchbay.Proofs.Lifetime.StopReach
import Patchbay.Proofs.Lifetime.Refusal
import Patchbay.Proofs.Clock.NoPast

namespace Patchbay

open Act

-- If it is a time at all, it is no earlier than `least`.
def Time.Late (least time : Float) : Prop := time.isFinite = true → least ≤ time

theorem Time.Late.after {least time length : Float} (h : Late least time) (hlength : 0 ≤ length) :
    Late least (time + length) := by
  intro hfinite
  have hfinite := isFinite_of_add hfinite
  exact le_trans (h hfinite) (le_add_of_finite hfinite hlength)

theorem Untimed.stops_eq {s t : Studio} (h : Untimed s t) (c : ContextId) :
    (t.engine c).stops = (s.engine c).stops := by
  obtain ⟨calls, hcalls, huntimed⟩ := h.calls c
  have hnone : calls.filterMap HostCall.stop? = [] := by
    refine List.filterMap_eq_nil_iff.2 fun call hcall => ?_
    have hcall := huntimed call hcall
    cases call <;> first | rfl | cases hcall
  change (t.engine c).calls.toList.filterMap HostCall.stop? = _
  rw [hcalls, List.filterMap_append, hnone, List.append_nil]
  rfl

-- Only the host that is stopped gets another time.
theorem Request.stopAt_send {engine after : Engine} {request : Request}
    (h : request.send engine = .ok after) {host : HostId}
    (hother : ∀ time, request.call.stop? ≠ some (host, time)) :
    (after.nodes[host]?).bind HostNode.stopAt = (engine.nodes[host]?).bind HostNode.stopAt := by
  rw [(nodes_send h).2, Array.getElem?_modify]
  split
  case isTrue heq =>
      have hkeeps (node : HostNode) : (request.touch node).stopAt = node.stopAt := by
        cases request with
        | stop own time => exact absurd (congrArg (fun host => some (host, time)) heq) (hother time)
        | _ => rfl
      cases engine.nodes[host]? <;> simp [hkeeps]
  case isFalse => rfl

-- It is to stop, and no earlier than `least`.
def Studio.StopsAfter (s : Studio) (least : Float) (c : ContextId) (host : HostId) : Prop :=
  ∃ time, s.stopAt? c host = some time ∧ least ≤ time

-- Some hosts are given times to stop, and the last for each is no earlier than `least`. The others keep
-- theirs.
def Retimed (least : Float) (s t : Studio) : Prop :=
  ∀ c, ∃ stops, (t.engine c).stops = (s.engine c).stops ++ stops ∧ ∀ host,
    ((∃ time, (host, time) ∈ stops) → t.StopsAfter least c host) ∧
      ((¬∃ time, (host, time) ∈ stops) → t.stopAt? c host = s.stopAt? c host)

namespace Retimed

variable {least : Float} {s t : Studio} {c : ContextId} {host : HostId}

theorem of_untimed (s t : Studio) (h : Untimed s t) : Retimed least s t :=
  fun c => ⟨[], by rw [h.stops_eq, List.append_nil], fun host => ⟨by simp, fun _ => h.stops c host⟩⟩

instance : IsPreorder Studio (Retimed least) where
  refl s := of_untimed s s (refl_of Untimed s)
  trans s t u h h' c := by
    obtain ⟨stops, hstops, htimes⟩ := h c
    obtain ⟨more, hmore, htimes'⟩ := h' c
    refine ⟨stops ++ more, by rw [hmore, hstops, List.append_assoc], fun host => ?_⟩
    simp only [List.mem_append, exists_or]
    by_cases hlast : ∃ time, (host, time) ∈ more
    · exact ⟨fun _ => (htimes' host).1 hlast, fun hnone => absurd (.inr hlast) hnone⟩
    · have hsame := (htimes' host).2 hlast
      rw [Studio.StopsAfter, hsame]
      exact ⟨fun hsome => (htimes host).1 (hsome.resolve_right hlast),
        fun hnone => (htimes host).2 fun hsome => hnone (.inl hsome)⟩

theorem later (h : Retimed least s t) (c : ContextId) (host : HostId) :
    t.stopAt? c host = s.stopAt? c host ∨ t.StopsAfter least c host := by
  obtain ⟨stops, -, htimes⟩ := h c
  by_cases hstop : ∃ time, (host, time) ∈ stops
  · exact .inr ((htimes host).1 hstop)
  · exact .inl ((htimes host).2 hstop)

theorem keep (h : Retimed least s t) (hs : s.StopsAfter least c host) :
    t.StopsAfter least c host := by
  rcases h.later c host with hsame | htime
  · rwa [Studio.StopsAfter, hsame]
  · exact htime

-- What has been stopped on the way has such a time.
theorem stilled (h : Retimed least s t) {P : ContextId → HostId → Prop} (hstilled : Stilled P s t)
    (hP : P c host) : t.StopsAfter least c host := by
  obtain ⟨stops, hstops, htimes⟩ := h c
  obtain ⟨same, hsame, hiff⟩ := hstilled c
  obtain rfl : stops = same := List.append_cancel_left (hstops.symm.trans hsame)
  exact (htimes host).1 ((hiff host).2 hP)

theorem of_engine (context : ContextId) {engine : Engine} (stops : List (HostId × Float))
    (hstops : engine.stops = (s.engine context).stops ++ stops)
    (htimes : ∀ host : HostId,
      ((∃ time, (host, time) ∈ stops) →
        ∃ time, (engine.nodes[host]?).bind HostNode.stopAt = some time ∧ least ≤ time) ∧
      ((¬∃ time, (host, time) ∈ stops) →
        (engine.nodes[host]?).bind HostNode.stopAt = s.stopAt? context host)) :
    Retimed least s { s with engines := s.engines.modify context fun _ => engine } := by
  intro c
  simp only [Studio.StopsAfter, Studio.stopAt?, s.engine_setEngine]
  split
  case isTrue hc =>
      obtain ⟨rfl, -⟩ := hc
      exact ⟨stops, hstops, htimes⟩
  case isFalse => exact ⟨[], by simp, fun host => ⟨by simp, fun _ => rfl⟩⟩

-- Only a stop changes when a host is to stop.
theorem keeps_request (context : ContextId) (request : Request) (h : request.call.stop? = none) :
    Keeps (Retimed least) (Act.host context request.send) := by
  refine fun s => along_host fun engine hsend => ⟨?_, trivial⟩
  refine of_engine context [] ?_ fun host => ⟨by simp, fun _ => ?_⟩
  · rw [Request.stops_send hsend, h]
    rfl
  · exact Request.stopAt_send hsend (by simp [h])

theorem along_stop (context : ContextId) (host : HostId) {time : Float} (h : least ≤ time) :
    Along (Retimed least) (Act.host context (·.stop host time)) s fun _ _ => True := by
  refine along_host fun engine hstop => ⟨?_, trivial⟩
  have hsend : (Request.stop host time).send (s.engine context) = .ok engine := hstop
  obtain ⟨⟨node, hnode⟩, hnodes⟩ := Request.nodes_send hsend
  have hlast : (engine.nodes[host]?).bind HostNode.stopAt = some time := by
    have hnode : (s.engine context).nodes[host]? = some node := hnode
    have hnodes : engine.nodes = (s.engine context).nodes.modify host fun node =>
        { node with stopAt := some time } := hnodes
    rw [hnodes, Array.getElem?_modify, if_pos rfl, hnode]
    rfl
  refine of_engine context [(host, time)] (Request.stops_send hsend) fun other =>
    ⟨fun hsome => ?_, fun hnone => ?_⟩
  · obtain ⟨_, hmem⟩ := hsome
    obtain rfl : other = host := congrArg Prod.fst (List.mem_singleton.1 hmem)
    exact ⟨time, hlast, h⟩
  · refine Request.stopAt_send hsend fun x hx => hnone ⟨x, ?_⟩
    exact List.mem_singleton.2 (Option.some_inj.1 hx).symm

instance : Schedules (Retimed least) where
  schedule context host param event := keeps_request context (.schedule host param event) rfl

instance : Times (Retimed least) (fun _ => Time.Late least) Node.Lasts where
  started id := keeps_modify fun s => of_untimed s _ (.of_change id fun _ => rfl)
  curve contour context host param time := contour.keeps_schedule context host param time
  start _ context host time _ _ := keeps_request context (.start host time) rfl _
  stop _ node host _ _ _ _ hfinite htime := along_stop node.context host (htime hfinite)
  lasting _ _ _ _ htime := htime
  after _ _ _ hlasts htime := hlasts.after fun _ hlength => htime.after hlength

end Retimed

-- Whatever has this host for its source is disconnected.
def Studio.Mutes (s : Studio) (nodes : Node → Prop) (c : ContextId) (host : HostId) : Prop :=
  ∀ node, nodes node → node.context = c → node.source? = some host →
    (node.state s).disconnected = true

-- Such a host keeps the time at which it is to stop.
def Spares (nodes : Node → Prop) (c : ContextId) (host : HostId) (s t : Studio) : Prop :=
  s.Mutes nodes c host → t.Mutes nodes c host ∧ t.stopAt? c host = s.stopAt? c host

namespace Spares

variable {nodes : Node → Prop} {c : ContextId} {host : HostId} {s t : Studio}

instance : IsPreorder Studio (Spares nodes c host) where
  refl _ hs := ⟨hs, rfl⟩
  trans _ _ _ h h' hs := by
    obtain ⟨ht, hsame⟩ := h hs
    obtain ⟨hu, hsame'⟩ := h' ht
    exact ⟨hu, hsame'.trans hsame⟩

theorem of_untimed (h : Untimed s t) (hgrows : s.ledger.Grows t.ledger) :
    Spares nodes c host s t := by
  refine fun hs => ⟨fun node hnode hc hsource => ?_, h.stops c host⟩
  have hcut := hs node hnode hc hsource
  rw [node.state_disconnected] at hcut ⊢
  exact (hgrows.fate node.id).cut hcut

-- Whatever is asked of hosts spares this one, unless it is to stop it.
theorem along_request (context : ContextId) (request : Request)
    (h : s.Mutes nodes c host → context = c → ∀ time, request.call.stop? ≠ some (host, time)) :
    Along (Spares nodes c host) (Act.host context request.send) s fun _ _ => True := by
  refine along_host fun engine hsend => ⟨fun hs => ⟨hs, ?_⟩, trivial⟩
  rw [Studio.stopAt?, s.engine_setEngine]
  split
  case isTrue hc =>
      obtain ⟨rfl, -⟩ := hc
      exact Request.stopAt_send hsend (h hs rfl)
  case isFalse => rfl

instance : Schedules (Spares nodes c host) where
  schedule context other param event _ :=
    along_request context (.schedule other param event) fun _ _ _ h => by cases h

instance : Times (Spares nodes c host) (fun _ _ => True) nodes where
  started id := keeps_modify fun s => of_untimed (.of_change id fun _ => rfl)
    (s.ledger_changeNode_eq id (f := fun state => { state with started := true }) (fun _ => rfl) ▸
      .refl s.ledger)
  curve contour context other param time := contour.keeps_schedule context other param time
  start _ context other time _ _ :=
    along_request context (.start other time) fun _ _ _ h => by cases h
  stop s node own time hnode hsource hconnected _ _ := by
    refine along_request node.context (.stop own time) fun hs hc x hx => ?_
    obtain rfl : own = host := congrArg Prod.fst (Option.some_inj.1 hx)
    have hcut := hs node hnode hc hsource
    rw [hconnected] at hcut
    cases hcut
  lasting _ _ _ _ _ := trivial
  after _ _ _ _ _ := ⟨trivial, fun _ _ => trivial⟩

end Spares

-- The nodes that were there stand as they stood.
def Upheld (s t : Studio) : Prop := ∀ (id : NodeId) state, s.nodes[id]? = some state →
  (t.nodes[id]?).map NodeState.standing = some state.standing

namespace Upheld

variable {s t : Studio}

theorem of_unmoved (h : Unmoved s t) : Upheld s t := by
  intro id state hstate
  rw [h.nodes, hstate, Option.map_some]

theorem of_nodes (h : t.nodes = s.nodes) : Upheld s t := by
  intro id state hstate
  rw [h, hstate, Option.map_some]

instance : IsPreorder Studio Upheld where
  refl s := of_nodes rfl
  trans s t u h h' id state hstate := by
    obtain ⟨state', hstate', hstanding⟩ := Option.map_eq_some_iff.1 (h id state hstate)
    rw [h' id state' hstate', hstanding]

theorem keeps_host (context : ContextId) (call : Engine → Except HostFault Engine) :
    Keeps Upheld (Act.host context call) :=
  fun _ => along_host fun _ _ => ⟨of_nodes rfl, trivial⟩

instance : Composes Upheld where
  connect context source target := keeps_host context fun engine => engine.connect source target
  setParam context host param x := keeps_host context fun engine => engine.setParam host param x
  setBuffer context host := keeps_host context fun engine => engine.setBuffer host
  connected id _ := keeps_modify fun _ => of_unmoved (.of_change id fun _ => rfl)
  created context _ _ := along_read (along_bind (along_modify (of_nodes rfl))
    fun _ _ _ _ => along_pure trivial)
  enrolled context label duration release make _ s := by
    refine Ends.mono (Node.ends_enrolled s) (fun node t ht => ⟨?_, trivial⟩) fun _ _ h => h.elim
    obtain ⟨-, state, -, huntouched⟩ := ht
    have hpush : Upheld s { s with nodes := s.nodes.push state } := by
      intro id old hold
      have hlt : id < s.nodes.size := (Array.getElem?_eq_some_iff.1 hold).1
      rw [Array.getElem?_push, if_neg (Nat.ne_of_lt hlt), hold, Option.map_some]
    exact trans_of Upheld hpush (of_unmoved huntouched.toUnmoved)
  watched _ _ _ _ := along_read (along_modify (of_nodes rfl))
  warned _ := keeps_modify fun _ => of_nodes rfl
  read := keeps_readAside fun _ _ => of_unmoved
  opened := keeps_openBuilder fun _ _ => of_unmoved
  memoized _ _ _ := keeps_modify fun _ => of_nodes rfl

theorem marks (h : Upheld s t) {node : Node} (hnode : s.ledger.Knows node) :
    (node.state t).started = (node.state s).started ∧
      (node.state t).disconnected = (node.state s).disconnected := by
  obtain ⟨state, hstate, -⟩ := Studio.state_of_knows hnode
  obtain ⟨state', hstate', hstanding⟩ := Option.map_eq_some_iff.1 (h node.id state hstate)
  obtain ⟨-, hstarted, hdisconnected⟩ := by simpa [NodeState.standing] using hstanding
  rw [Node.state, Node.state, hstate, hstate', Option.getD_some, Option.getD_some]
  exact ⟨hstarted, hdisconnected⟩

end Upheld

theorem Instrument.keeps_ready {R : Studio → Studio → Prop} [Drafts R] [Connects R]
    (inst : Instrument) (play : Play) : Keeps R (inst.ready play) := by
  refine keeps_bind (inst.keeps_nodeFor play) fun node => ?_
  split
  · exact keeps_bind (node.keeps_connect _) fun _ => keeps_pure node
  · exact keeps_pure node

section Steals

variable {k : InstrumentId} {least : Float} {voices : List Voice} {s t : Studio}

theorem ledger_markStopped (s : Studio) (k : InstrumentId) (id : VoiceId) :
    ({ s with instruments := s.instruments.modify k (·.markStopped id) } : Studio).ledger = s.ledger :=
  s.ledger_changeInstrument_eq k fun inst => inst.roster_markStopped id

theorem Instrument.Steals.timed {R : Studio → Studio → Prop} {admits : Studio → Float → Prop}
    {about : Node → Prop} [Times R admits about] (h : Steals k least voices s t)
    (huntimed : ∀ s t, Untimed s t → s.ledger.Grows t.ledger → R s t)
    (habout : ∀ voice ∈ voices, ∀ inner ∈ voice.node.reach, about inner) (hleast : admits s least) :
    R s t := by
  induction h with
  | done => exact refl_of R _
  | @next voice rest s t u hstop _ ih =>
      have hst : R s t :=
        (ends_of_ok hstop (Node.timed_stop (habout voice List.mem_cons_self) hleast)).1
      have hmarked : R t { t with instruments := t.instruments.modify k (·.markStopped voice.id) } :=
        huntimed t _ (.of_eq rfl rfl) (ledger_markStopped t k voice.id ▸ .refl t.ledger)
      have hst := trans_of R hst hmarked
      have hrest := ih (fun other hother => habout other (List.mem_cons_of_mem _ hother))
        (Times.lasting s _ least hst hleast)
      exact trans_of R hst hrest

-- A voice that can be stolen: a stop comes to all the sources that it runs.
structure Node.Stealable (node : Node) (s : Studio) : Prop where
  holds : s.ledger.Holds node
  severed : node.Severed s
  lasts : ∀ inner ∈ node.reach, inner.Lasts

theorem Node.Stealable.keep {node : Node} (h : node.Stealable s) (hst : Steady s t) :
    node.Stealable t :=
  ⟨hst.holds h.holds, h.severed.keep hst, h.lasts⟩

-- Every source that a stolen voice still runs is given a time to stop.
theorem Instrument.Steals.running (h : Steals k least voices s t) (hleast : Time.Late least least)
    (hvoices : ∀ voice ∈ voices, voice.node.Stealable s) {voice : Voice} (hvoice : voice ∈ voices)
    {c : ContextId} {host : HostId} (hruns : voice.node.Running s c host) :
    t.StopsAfter least c host := by
  induction h with
  | done => cases hvoice
  | @next first rest s t u hstop hrest ih =>
      have hfirst := hvoices first List.mem_cons_self
      have hreaches : Along Steady (first.node.stop least) s
          fun _ t => Stilled (first.node.Running s) s t :=
        Node.stilled_stop hfirst.holds hfirst.severed
      obtain ⟨hst, hstilled⟩ := ends_of_ok hstop hreaches
      have htimed : Retimed least s t :=
        (ends_of_ok hstop (Node.timed_stop hfirst.lasts hleast)).1
      let marked : Studio :=
        { t with instruments := t.instruments.modify k (·.markStopped first.id) }
      have hmark : Steady t marked :=
        ⟨by rw [ledger_markStopped], by rw [ledger_markStopped], fun _ => rfl⟩
      have hsm : Steady s marked := trans_of Steady hst hmark
      have hothers : ∀ other ∈ rest, other.node.Stealable marked := fun other hother =>
        (hvoices other (List.mem_cons_of_mem _ hother)).keep hsm
      rcases List.mem_cons.1 hvoice with rfl | hvoice
      · have hlater : Retimed least marked u := hrest.timed
          (fun s t h _ => .of_untimed s t h) (fun other hother => (hothers other hother).lasts) hleast
        exact hlater.keep (htimed.stilled hstilled hruns)
      · exact ih hothers hvoice ((Node.running_congr hsm).2 hruns)

end Steals

-- A voice is seen off, and nobody who is told acts.
structure Parting (k : InstrumentId) (s t : Studio) : Prop extends Hushed k s t, Untimed s t

section Enter

variable {k : InstrumentId} {s t : Studio} {node : Node} {time : Float} {duration : Option Float}
variable {depth : Nat}

instance : IsPreorder Studio (Parting k) where
  refl s := ⟨refl_of (Hushed k) s, refl_of Untimed s⟩
  trans _ _ _ h h' :=
    ⟨trans_of (Hushed k) h.toHushed h'.toHushed, trans_of Untimed h.toUntimed h'.toUntimed⟩

theorem parting_disconnect (node : Node) : Keeps (Parting k) node.disconnect := by
  intro s
  have haside : Keeps (Hushed k) node.disconnect :=
    (Node.narrow_disconnect (R := Aside) node).mono fun _ _ => .of_instruments
  exact Ends.mono (Ends.and (haside s) (Untimed.keeps_disconnect node s))
    (fun _ _ h => ⟨⟨h.1.1, h.2.1⟩, trivial⟩) fun _ _ h => ⟨h.1, h.2⟩

-- The node is registered, and seen off at once if it has ended. No host is told when to do anything.
theorem untimed_track (hk : k < s.instruments.size)
    (hids : ∀ voice ∈ (s.instrument k).voices, voice.id ≠ (s.instrument k).nextId)
    (hquiet : (s.instrument k).Quiet) :
    Ends (Instrument.track (Instrument.emitAt depth) k node) s
      (fun _ t => Untimed s t ∧ (t.instrument k).Quiet) fun _ _ => True := by
  have hregister : Untimed s (s.registering k node) := by
    let u : Studio := { s with instruments := s.instruments.modify k (·.register node) }
    have hsu : Untimed s u := .of_eq rfl rfl
    exact trans_of Untimed hsu (.of_change (s := u) node.id
      (f := fun state => { state with voice := some (s.instrument k).nextId }) fun _ => rfl)
  obtain ⟨hsize, hregistered, hvoice⟩ := registering_spec node hk hids
  have hquiet : ((s.registering k node).instrument k).Quiet := hregistered ▸ hquiet
  rw [ends_track_iff]
  split
  case isTrue =>
      let t : Studio := { s.registering k node with
        instruments := (s.registering k node).instruments.modify k (·.erase (s.instrument k).nextId) }
      have herase : Untimed (s.registering k node) t := .of_eq rfl rfl
      have herased : Untimed s t := trans_of Untimed hregister herase
      have hquiet' : (t.instrument k).Quiet := by
        rw [(s.registering k node).instrument_modify, if_pos ⟨rfl, hsize⟩]
        exact hquiet
      have hemit (event : Event) (u : Studio) (hu : (u.instrument k).Quiet) :
          Along (Parting k) (Instrument.emitAt depth k event) u fun _ _ => True :=
        Ends.mono (whispered_emitAt depth event hu)
          (fun _ _ h => ⟨⟨h.1.toHushed, .of_untouched h.1.toUntouched⟩, trivial⟩)
          fun _ _ h => ⟨h.toHushed, .of_untouched h.toUntouched⟩
      have hremove := ends_remove (fun _ _ h => h.toHushed) hsize hvoice hquiet
        (parting_disconnect node) (fun _ => keeps_modify fun _ => ⟨.of_instruments rfl, .of_eq rfl rfl⟩)
        hemit
      exact hremove.mono (fun _ u h => ⟨trans_of Untimed herased h.toUntimed, h.quiet hquiet'⟩)
        fun _ _ _ => trivial
  case isFalse =>
      rw [changeNode, ends_modify]
      refine ⟨trans_of Untimed hregister ?_, hquiet⟩
      exact .of_change node.id fun _ => rfl

section Times

variable {R : Studio → Studio → Prop} {admits : Studio → Float → Prop} {about : Node → Prop}
variable [Times R admits about] (habout : ∀ inner ∈ node.reach, about inner)
variable (hafter : ∀ t x, admits t time → 0 ≤ x → admits t (time + x))

include habout hafter

theorem timed_sound (htime : admits s time) :
    Along R (Instrument.sound node time duration) s fun _ _ => True := by
  refine along_bind (Node.timed_start habout htime) fun _ t hst _ => ?_
  split
  case h_1 x hx =>
      have hpos : 0 < x := by simpa using (Option.filter_eq_some_iff.1 hx).2
      have ht := Times.lasting s t time hst htime
      exact Node.timed_stop habout (hafter t x ht (Time.le_of_lt hpos))
  case h_2 => exact along_pure trivial

-- A voice that enters gives hosts no times but those of its sound.
theorem timed_enter (huntimed : ∀ s t, Untimed s t → s.ledger.Grows t.ledger → R s t)
    (htime : admits s time) (hs : s.ledger.Sound 0) (hnode : s.ledger.Knows node)
    (hk : k < s.instruments.size)
    (hids : ∀ voice ∈ (s.instrument k).voices, voice.id ≠ (s.instrument k).nextId)
    (hquiet : (s.instrument k).Quiet) {r : Node}
    (h : Instrument.enter (Instrument.emitAt depth) k node time duration s = .ok r t) : R s t := by
  obtain ⟨id, u, htrack, h⟩ := ok_of_seq h
  obtain ⟨⟨⟩, v, hsound, h⟩ := ok_of_seq h
  have htracks := ends_track hs (emits_emitAt depth) (Studio.getElem?_instrument hk) hnode
  obtain ⟨hpays, -⟩ := ends_of_ok htrack htracks
  obtain ⟨htracked, hquiet⟩ := ends_of_ok htrack (untimed_track hk hids hquiet)
  have hsu : R s u := huntimed s u htracked hpays.grows
  have hu : admits u time := Times.lasting s u time hsu htime
  have huv : R u v := (ends_of_ok hsound (timed_sound habout hafter hu)).1
  have hkeeps : Along Settled (Instrument.sound node time duration) u fun _ v => Pays 0 [] u v :=
    (Instrument.keeps_sound node time duration).both (Instrument.keeps_sound node time duration) u
  obtain ⟨haside, hpays'⟩ := ends_of_ok hsound hkeeps
  obtain ⟨-, hgrows, htold⟩ := ends_of_ok h (ends_announced id (hpays'.sound (hpays.sound hs)))
  have hquiet : (v.instrument k).Quiet := (Hushed.of_instruments haside.instruments).quiet hquiet
  have hvt : R v t := huntimed v t (.of_untouched (htold hquiet).toUntouched) hgrows
  exact trans_of R hsu (trans_of R huv hvt)

end Times

end Enter

-- With a start at `least` that steals the voices, hosts have other times to stop, none of them earlier.
-- What a stolen voice still runs gets one, and what has been disconnected keeps its own.
structure Prolongs (voices : List Voice) (least : Float) (s t : Studio) : Prop where
  later : ∀ c host, t.stopAt? c host = s.stopAt? c host ∨ t.StopsAfter least c host
  running : ∀ voice ∈ voices, ∀ c host, voice.node.Running s c host → t.StopsAfter least c host
  disconnected : ∀ voice ∈ voices, ∀ leaf ∈ voice.node.reach, (leaf.state s).disconnected = true →
    ∀ host, leaf.source? = some host → t.stopAt? leaf.context host = s.stopAt? leaf.context host

namespace Instrument

variable {k : InstrumentId} {s t : Studio} {play : Play} {time delay duration : Option Float}

-- No other node has the host of a source that is disconnected.
theorem mutes_of_housed {leaf : Node} (hs : s.ledger.Sound 0) (housed : Housed s)
    (hleaf : s.ledger.Knows leaf) (hcut : (leaf.state s).disconnected = true) {host : HostId}
    (hsource : leaf.source? = some host) : s.Mutes s.ledger.Knows leaf.context host := by
  intro other hother hcontext hown
  have hid := housed.owner hleaf (hs.formed hleaf) hsource (Studio.node?_of_knows hother) hcontext hown
  rw [Node.state_disconnected] at hcut ⊢
  rw [hid, hcut]

-- Getting a node ready changes nothing about the voices.
theorem stealable_of_ready {u : Studio} {node : Node} (hs : s.ledger.Sound 0)
    (hnode : s.ledger.Knows node) (hsevered : node.Severed s) (hsu : Upheld s u)
    (hgrows : s.ledger.Grows u.ledger) (hmetered : u.Metered) : node.Stealable u := by
  have hreach (inner : Node) (hinner : inner ∈ node.reach) : s.ledger.Knows inner :=
    hs.knows_of_reach hnode hinner
  have hcut (inner : Node) (hinner : inner ∈ node.reach) :
      (u.ledger.fate inner.id).cut = (s.ledger.fate inner.id).cut := by
    rw [← Node.state_disconnected, (hsu.marks (hreach inner hinner)).2, Node.state_disconnected]
  refine ⟨fun inner hinner => ⟨(hreach inner hinner).grow hgrows, ?_⟩, ?_, ?_⟩
  · exact Nat.lt_of_lt_of_le (hs.formed (hreach inner hinner)).opened hgrows.contexts
  · intro inner hinner hinnercut leaf hleaf
    rw [hcut inner hinner] at hinnercut
    rw [hcut leaf (Node.reach_trans hleaf hinner)]
    exact hsevered inner hinner hinnercut leaf hleaf
  · exact fun inner hinner => hmetered.lasts ((hreach inner hinner).grow hgrows)

theorem running_of_ready {u : Studio} {node : Node} (hs : s.ledger.Sound 0)
    (hnode : s.ledger.Knows node) (hsu : Upheld s u) {c : ContextId} {host : HostId}
    (h : node.Running s c host) : node.Running u c host := by
  obtain ⟨leaf, hleaf, hc, hsource, hstarted, hconnected⟩ := h
  obtain ⟨hstarted', hconnected'⟩ := hsu.marks (hs.knows_of_reach hnode hleaf)
  exact ⟨leaf, hleaf, hc, hsource, hstarted'.trans hstarted, hconnected'.trans hconnected⟩

theorem prolongs_of_start {node : Node} (hs : s.ledger.Sound 0) (hmetered : s.Metered)
    (housed : Housed s) (hexact : (s.instrument k).Exact s) (hk : k < s.instruments.size)
    (hquiet : (s.instrument k).Quiet) (hplay : play.Known s.ledger)
    (hsevered : ∀ voice ∈ (s.instrument k).excess, voice.node.Severed s)
    (hstart : Instrument.start k play time delay duration s = .ok node t) :
    Prolongs (s.instrument k).excess (Time.resolve time delay (s.now node.context)) s t := by
  obtain ⟨r, u, v, hready, hsteals, henter⟩ := steps_of_ok hs hplay hstart
  have hsu : Untimed s u := (ends_of_ok hready (keeps_ready _ play s)).1
  have hupheld : Upheld s u := (ends_of_ok hready (keeps_ready _ play s)).1
  have housed : Housed u :=
    (ends_of_ok hready (keeps_ready (R := Preserves Housed) _ play s)).1 housed
  obtain ⟨hsettled, hu, hr⟩ := ends_of_ok hready (settled_ready hs hplay)
  have hv : Cleared k (s.instrument k).excess r s v := cleared_of_steals hs hplay hk hready hsteals
  obtain ⟨rfl, -⟩ := entered hv.sound hv.known hv.size (hv.fresh hexact) (hv.quiet hquiet) henter
  rw [hsu.clocks] at hsteals henter
  generalize Time.resolve time delay (s.now node.context) = least at *
  have hvoice : ∀ voice ∈ (s.instrument k).excess, s.ledger.Knows voice.node :=
    fun voice hvoice => knows_of_excess hs hvoice
  have hvoices : ∀ voice ∈ (s.instrument k).excess, voice.node.Stealable u := fun voice hmem =>
    stealable_of_ready hs (hvoice voice hmem) (hsevered voice hmem) hupheld hsettled.grows
      (hsu.metered hmetered)
  have hreach (inner : Node) (hinner : inner ∈ node.reach) : u.ledger.Knows inner :=
    hu.knows_of_reach hr hinner
  have hlate : Time.Late least least := fun hfinite => Time.le_self (Time.number_of_finite hfinite)
  have hstolen : Retimed least u v := hsteals.timed (fun s t h _ => .of_untimed s t h)
    (fun voice hmem => (hvoices voice hmem).lasts) hlate
  have hentered : Retimed least v t := timed_enter
    (fun inner hinner => (hsu.metered hmetered).lasts (hreach inner hinner)) (fun _ _ h hx => h.after hx)
    (fun s t h _ => .of_untimed s t h) hlate hv.sound hv.known hv.size (hv.fresh hexact)
    (hv.quiet hquiet) henter
  constructor
  case later =>
      intro c host
      rw [← hsu.stops c host]
      exact (trans_of (Retimed least) hstolen hentered).later c host
  case running =>
      intro voice hmem c host hruns
      have hruns := running_of_ready hs (hvoice voice hmem) hupheld hruns
      exact hentered.keep (hsteals.running hlate hvoices hmem hruns)
  case disconnected =>
      intro voice hmem leaf hleaf hcut host hsource
      have hleafknown := hs.knows_of_reach (hvoice voice hmem) hleaf
      have hmutes : u.Mutes u.ledger.Knows leaf.context host := by
        refine mutes_of_housed hu housed (hleafknown.grow hsettled.grows) ?_ hsource
        rw [(hupheld.marks hleafknown).2, hcut]
      have hspares : Spares u.ledger.Knows leaf.context host u v := hsteals.timed
        (fun _ _ => .of_untimed)
        (fun voice hmem inner hinner => ((hvoices voice hmem).holds inner hinner).1) trivial
      have hspares' : Spares u.ledger.Knows leaf.context host v t := timed_enter hreach
        (fun _ _ _ _ => trivial) (fun _ _ => .of_untimed) trivial hv.sound hv.known hv.size
        (hv.fresh hexact) (hv.quiet hquiet) henter
      rw [← hsu.stops leaf.context host]
      exact (trans_of (Spares u.ledger.Knows leaf.context host) hspares hspares' hmutes).2

end Instrument

namespace Session

open Instrument

-- Stealing goes by when the new voice starts, and not by when the old one was to end: what the old one
-- still runs is to stop then or later. A source keeps a time before that just if it has been
-- disconnected.
theorem stolen_voices_run_on (rate : Float) (commands : List Command) (k : InstrumentId) (play : Play)
    (time delay duration : Option Float) (node : Node) (t : Studio)
    (hk : (run rate commands).studio.hasInstrument k = true)
    (hquiet : ((run rate commands).studio.instrument k).Quiet)
    (hplay : play.Known (run rate commands).studio.ledger)
    (hstart : Instrument.start k play time delay duration (run rate commands).studio = .ok node t) :
    Prolongs ((run rate commands).studio.instrument k).excess
        (Time.resolve time delay ((run rate commands).studio.now node.context))
        (run rate commands).studio t ∧
      ∀ voice ∈ ((run rate commands).studio.instrument k).excess, ∀ leaf ∈ voice.node.reach,
        (leaf.state (run rate commands).studio).started = true → ∀ host, leaf.source? = some host →
        ∀ x, (run rate commands).studio.stopAt? leaf.context host = some x →
          x < Time.resolve time delay ((run rate commands).studio.now node.context) →
          (t.stopAt? leaf.context host = some x ↔
            (leaf.state (run rate commands).studio).disconnected = true) := by
  have hlawful := lawful_run rate commands
  have hs : (run rate commands).studio.ledger.Sound 0 := hlawful.sound
  have hsevered : ∀ voice ∈ ((run rate commands).studio.instrument k).excess,
      voice.node.Severed (run rate commands).studio := by
    intro voice hvoice inner hinner hcut _ hleaf
    have hknown := hs.knows_of_reach (knows_of_excess hs hvoice) hinner
    exact hlawful.cuts.cut_of_reach hs rfl hknown hcut hleaf
  have hprolongs := prolongs_of_start hs (metered_run rate commands) (housed_run rate commands)
    (exact_of_lawful hlawful k) (of_decide_eq_true hk) hquiet hplay hsevered hstart
  refine ⟨hprolongs, fun voice hvoice leaf hleaf hstarted host hsource x hx hearly => ?_⟩
  constructor
  · intro hkept
    by_contra hconnected
    have hruns : leaf.Runs (run rate commands).studio leaf.context host :=
      ⟨rfl, hsource, hstarted, Bool.eq_false_iff.2 hconnected⟩
    obtain ⟨y, hy, hlate⟩ := hprolongs.running voice hvoice _ host ⟨leaf, hleaf, hruns⟩
    obtain rfl : x = y := Option.some_inj.1 (hkept.symm.trans hy)
    exact Time.not_le_of_lt hearly hlate
  · intro hcut
    exact (hprolongs.disconnected voice hvoice leaf hleaf hcut host hsource).trans hx

-- The only voice there may be sounds for a second.
def brief : List Command := [
  .instrument 0 false (some .sine) none 1,
  .playValue 0 440 none none (some 1)]

-- The next voice is to start long after that.
def another : Act Node := Instrument.start 0 (.value 330) (some 5) none none

theorem five_le (now : Float) : 5 ≤ Time.resolve (some 5) none now :=
  Time.given_le_resolve (some 5) none now (by decide +kernel) (by decide +kernel)

theorem brief_tone_runs_on : ∃ node t, another (run 44100 brief).studio = .ok node t ∧
    ((run 44100 brief).studio.stopAt? 0 1).any (· ≤ 1) = true ∧ t.StopsAfter 5 0 1 := by
  have hfacts : (run 44100 brief).studio.hasInstrument 0 = true ∧
      ((run 44100 brief).studio.instrument 0).Quiet ∧
      ((run 44100 brief).studio.stopAt? 0 1).any (· ≤ 1) = true ∧
      (∃ voice ∈ ((run 44100 brief).studio.instrument 0).excess,
        voice.node.Running (run 44100 brief).studio 0 1) ∧
      another.succeeds (run 44100 brief).studio = true := by
    decide +kernel
  obtain ⟨hk, hquiet, hbefore, ⟨voice, hvoice, hruns⟩, hstart⟩ := hfacts
  obtain ⟨node, t, hstart⟩ := Act.ok_of_succeeds hstart
  have h := (stolen_voices_run_on 44100 brief 0 (.value 330) (some 5) none none node t hk hquiet
    trivial hstart).1
  obtain ⟨y, hy, hlate⟩ := h.running voice hvoice 0 1 hruns
  exact ⟨node, t, hstart, hbefore, y, hy, Time.le_trans (five_le _) hlate⟩

-- A tone of a second is heard for five.
theorem brief_tone_prolonged : ¬∀ (rate : Float) (commands : List Command) (k : InstrumentId)
    (play : Play) (time delay duration : Option Float) (node : Node) (t : Studio),
    0 < ((run rate commands).studio.instrument k).maxVoices →
    Instrument.start k play time delay duration (run rate commands).studio = .ok node t →
    ∀ voice ∈ ((run rate commands).studio.instrument k).excess, ∀ leaf ∈ voice.node.reach,
      ∀ host, leaf.source? = some host →
      ∀ x, (run rate commands).studio.stopAt? leaf.context host = some x →
        x ≤ Time.resolve time delay ((run rate commands).studio.now node.context) →
        t.stopAt? leaf.context host = some x := by
  intro h
  have hfacts : 0 < ((run 44100 brief).studio.instrument 0).maxVoices ∧
      (∃ voice ∈ ((run 44100 brief).studio.instrument 0).excess, ∃ leaf ∈ voice.node.reach,
        leaf.context = 0 ∧ leaf.source? = some 1) ∧
      another.succeeds (run 44100 brief).studio = true ∧
      ((run 44100 brief).studio.stopAt? 0 1).any (· < 5) = true ∧
      ((another.after (run 44100 brief).studio).stopAt? 0 1).any (· < 5) = false := by
    decide +kernel
  obtain ⟨hlimit, ⟨voice, hvoice, leaf, hleaf, hcontext, hsource⟩, hstart, hearly, hlate⟩ := hfacts
  obtain ⟨node, t, hstart⟩ := Act.ok_of_succeeds hstart
  obtain ⟨x, hx, hlt⟩ := (Option.any_eq_true _ _).1 hearly
  have hle : x ≤ 5 := Time.le_of_lt (of_decide_eq_true hlt)
  have hkept := h 44100 brief 0 (.value 330) (some 5) none none node t hlimit hstart voice hvoice
    leaf hleaf 1 hsource x (hcontext ▸ hx) (Time.le_trans hle (five_le _))
  have hafter : another.after (run 44100 brief).studio = t := by rw [Act.after, hstart]
  rw [hcontext] at hkept
  rw [hafter, hkept, ← hx, hearly] at hlate
  cases hlate

end Session

end Patchbay
