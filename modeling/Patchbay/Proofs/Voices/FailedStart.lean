import Patchbay.Proofs.Voices.Stealing

namespace Patchbay

open Act

-- The nodes that were there have ended if and only if they had before.
def Sustained (s t : Studio) : Prop :=
  ∀ (id : NodeId) (state : NodeState), s.nodes[id]? = some state →
    ∃ state' : NodeState, t.nodes[id]? = some state' ∧ state'.ended = state.ended

namespace Sustained

variable {s t : Studio}

theorem of_nodes (h : t.nodes = s.nodes) : Sustained s t :=
  fun _ state hstate => ⟨state, h ▸ hstate, rfl⟩

instance : IsPreorder Studio Sustained where
  refl _ := of_nodes rfl
  trans s t u h h' id state hstate := by
    obtain ⟨state', hstate', hsame⟩ := h id state hstate
    obtain ⟨state'', hstate'', hsame'⟩ := h' id state' hstate'
    exact ⟨state'', hstate'', hsame'.trans hsame⟩

instance : Narrow Sustained where
  same _ _ h _ := of_nodes h
  push s state id old hold := by
    refine ⟨old, ?_, rfl⟩
    have hid : id < s.nodes.size := (Array.getElem?_eq_some_iff.1 hold).1
    rw [Array.getElem?_push_lt hid]
    exact (Array.getElem?_eq_getElem hid).symm.trans hold
  change s id f hf other state hstate := by
    rw [Array.getElem?_modify]
    by_cases hid : id = other
    · exact ⟨f state, by simp [hid, hstate], hf state⟩
    · exact ⟨state, by simp [hid, hstate], rfl⟩

instance : Plays Sustained where
  request := Wires.request
  started := Wires.started
  connected := Wires.connected
  stopped _ _ := keeps_modify fun _ => of_nodes rfl

theorem ended (h : Sustained s t) {node : Node} (hnode : s.ledger.Knows node) :
    (node.state t).ended = (node.state s).ended := by
  unfold Ledger.Knows Studio.ledger at hnode
  cases hstate : s.nodes[node.id]? with
  | none => simp [hstate, Fate.absent] at hnode
  | some state =>
      obtain ⟨state', hstate', hsame⟩ := h node.id state hstate
      simp [Node.state, hstate, hstate', hsame]

end Sustained

section Keeps

variable {emit : Instrument.Emit} (hemit : ∀ k event, Keeps Sustained (emit k event))
variable (k : InstrumentId)

theorem sustained_changeInstrument (f : Instrument → Instrument) :
    Keeps Sustained (changeInstrument k f) :=
  keeps_modify fun _ => .of_nodes rfl

theorem sustained_hear (notice : Notice) : Keeps Sustained (hear notice) :=
  keeps_modify fun _ => .of_nodes rfl

include hemit

theorem sustained_countVoices : Keeps Sustained (Instrument.countVoices emit k) :=
  keeps_bind (keeps_instrument k) fun _ => hemit k _

theorem sustained_remove (id : VoiceId) : Keeps Sustained (Instrument.remove emit k id) := by
  refine keeps_bind (keeps_instrument k) fun inst => ?_
  split
  · exact keeps_pure _
  · refine keeps_bind (sustained_changeInstrument k _) fun _ => ?_
    refine keeps_bind ?_ fun _ => keeps_bind (hemit k _) fun _ => sustained_countVoices hemit k
    exact keeps_catch (Node.narrow_disconnect _) fun _ => keeps_modify fun _ => .of_nodes rfl

theorem sustained_track (node : Node) : Keeps Sustained (Instrument.track emit k node) := by
  refine keeps_bind (keeps_instrument k) fun inst => ?_
  refine keeps_bind (sustained_changeInstrument k _) fun _ => ?_
  refine keeps_bind (narrow_changeNode node.id fun _ => rfl) fun _ => ?_
  refine keeps_bind keeps_get fun t => ?_
  refine keeps_ite (keeps_bind (sustained_remove hemit k _) fun _ => keeps_pure _) ?_
  exact keeps_bind (narrow_changeNode node.id fun _ => rfl) fun _ => keeps_pure _

theorem sustained_startWith (play : Play) (time delay duration : Option Float) :
    Keeps Sustained (Instrument.startWith emit k play time delay duration) := by
  rw [Instrument.startWith_eq]
  refine keeps_bind (keeps_instrument k) fun inst => ?_
  have hnode : Keeps Sustained (inst.nodeFor play) := by
    cases play with
    | node node => exact keeps_pure node
    | value x =>
        unfold Instrument.nodeFor
        dsimp only
        split
        · exact Recipe.keeps_build _ x
        · exact keeps_throw _
  have hready : Keeps Sustained (inst.ready play) := by
    refine keeps_bind hnode fun node => ?_
    dsimp only
    split
    · exact keeps_bind (Node.keeps_connect node _) fun _ => keeps_pure _
    · exact keeps_pure _
  refine keeps_bind hready fun node => keeps_bind (keeps_now _) fun now => ?_
  refine keeps_bind (Instrument.keeps_steal k _) fun _ => ?_
  refine keeps_bind (sustained_track hemit k node) fun id => ?_
  refine keeps_bind (Instrument.keeps_sound node _ duration) fun _ => ?_
  refine keeps_bind (hemit k _) fun _ => ?_
  exact keeps_bind (sustained_countVoices hemit k) fun _ => keeps_pure _

theorem sustained_perform (topic : Topic) (tag : String) (reaction : Reaction) :
    Keeps Sustained (Instrument.perform emit k topic tag reaction) := by
  cases reaction with
  | subscribe => exact sustained_changeInstrument k _
  | play value duration =>
      cases value with
      | none => exact sustained_hear _
      | some x =>
          refine keeps_catch (keeps_map _ ?_) fun _ => sustained_hear _
          exact sustained_startWith hemit k _ _ _ _
  | stopAll => exact keeps_catch (Instrument.keeps_stop k _ _ _) fun _ => sustained_hear _

theorem sustained_tell (event : Event) (observer : Observer) :
    Keeps Sustained (Instrument.tell emit k event observer) := by
  refine keeps_bind (sustained_hear _) fun _ => ?_
  dsimp only
  split
  · exact keeps_bind (sustained_perform hemit k _ _ _) fun _ => keeps_pure _
  · exact keeps_pure _

theorem sustained_deliver (event : Event) :
    Keeps Sustained (Instrument.deliver emit k event) := by
  refine keeps_bind (sustained_changeInstrument k _) fun _ => ?_
  refine keeps_bind (keeps_instrument k) fun inst => ?_
  refine keeps_bind (sustained_changeInstrument k _) fun _ => ?_
  refine keeps_bind ?_ fun observers => sustained_changeInstrument k _
  exact keeps_mapM fun observer _ => sustained_tell hemit k event observer

end Keeps

theorem sustained_emitAt (depth : Nat) (k : InstrumentId) (event : Event) :
    Keeps Sustained (Instrument.emitAt depth k event) := by
  induction depth generalizing k event with
  | zero => exact sustained_deliver (fun k event => sustained_changeInstrument k _) k event
  | succ depth ih => exact sustained_deliver (fun k event => ih k event) k event

namespace Instrument

-- What a start that fails leaves in the registry of its instrument, by the step that fails.
inductive Fails (k : InstrumentId) (play : Play) (time delay duration : Option Float) (s : Studio)
    (e : Error) (t : Studio) : Prop where
  | unready
      (hfails : (s.instrument k).ready play s = .error e t)
      (hvoices : (t.instrument k).voices = (s.instrument k).voices)
      (hnext : (t.instrument k).nextId = (s.instrument k).nextId)
  -- A voice could not be stolen. Those before it have been.
  | crowded (node : Node) (u v : Studio) (stolen rest : List Voice) (voice : Voice)
      (hready : (s.instrument k).ready play s = .ok node u)
      (hexcess : (s.instrument k).excess = stolen ++ voice :: rest)
      (hsteals : Steals k (Time.resolve time delay (u.now node.context)) stolen u v)
      (hfails : voice.node.stop (Time.resolve time delay (u.now node.context)) v = .error e t)
      (hvoices : (t.instrument k).voices =
        (s.instrument k).voices.map (mark (stolen.map Voice.id)))
      (hnext : (t.instrument k).nextId = (s.instrument k).nextId)
  -- The voice has entered the registry, and stays there without a sound.
  | silent (node : Node) (u v : Studio)
      (hready : (s.instrument k).ready play s = .ok node u)
      (hfails : sound node (Time.resolve time delay (u.now node.context)) duration v = .error e t)
      (hlive : (node.state s).ended = false)
      (hvoices : (t.instrument k).voices =
        (s.instrument k).voices.map (mark ((s.instrument k).excess.map Voice.id)) ++
          [⟨(s.instrument k).nextId, node, false⟩])
      (hnext : (t.instrument k).nextId = (s.instrument k).nextId + 1)
  -- Its node had ended, so that the voice has left again, and observers have been told.
  | late (node : Node) (u v : Studio)
      (hready : (s.instrument k).ready play s = .ok node u)
      (hfails : sound node (Time.resolve time delay (u.now node.context)) duration v = .error e t)
      (hended : (node.state s).ended = true)
      (hids : ∀ id ≤ (s.instrument k).nextId,
        id ∈ (t.instrument k).voiceIds ↔ id ∈ (s.instrument k).voiceIds)
      (hnext : (s.instrument k).nextId < (t.instrument k).nextId)
      (hquiet : (s.instrument k).Quiet →
        (t.instrument k).voices =
            (s.instrument k).voices.map (mark ((s.instrument k).excess.map Voice.id)) ∧
          (t.instrument k).nextId = (s.instrument k).nextId + 1)

section Fails

variable {k : InstrumentId} {play : Play} {time delay duration : Option Float} {s t : Studio}

theorem sustained_start :
    Along Sustained (Instrument.start k play time delay duration) s fun _ _ => True := by
  unfold Along Instrument.start emitter
  simp only [ends_bind, ends_get, ends_pure]
  exact sustained_startWith (sustained_emitAt s.credit) k play time delay duration s

-- As long as no node ends, the voices that were registered are, and no voice is whose node had ended.
theorem registered_iff {node : Node} (hs : (s.instrument k).Exact s) (ht : (t.instrument k).Exact t)
    (hst : Sustained s t) (hknown : ∀ played ∈ (s.instrument k).played, s.ledger.Knows played)
    (hended : (node.state t).ended = true)
    (hplayed : (s.instrument k).played ++ [node] <+: (t.instrument k).played)
    {id : VoiceId} (hid : id ≤ (s.instrument k).nextId) :
    id ∈ (t.instrument k).voiceIds ↔ id ∈ (s.instrument k).voiceIds := by
  have hafter := List.prefix_iff_getElem?.1 hplayed
  rw [hs.registered, ht.registered]
  rcases Nat.lt_or_eq_of_le hid with hold | rfl
  · have hbefore := List.getElem?_eq_getElem hold
    have hsame := hst.ended (hknown _ (List.getElem_mem hold))
    have hlength : id < ((s.instrument k).played ++ [node]).length := by
      rw [List.length_append]
      exact Nat.lt_succ_of_lt hold
    rw [hafter id hlength, List.getElem_append_left hold, hbefore]
    simp [hsame]
  · have hnone : (s.instrument k).played[(s.instrument k).nextId]? = none :=
      List.getElem?_eq_none (Nat.le_refl _)
    have hlast : (t.instrument k).played[(s.instrument k).nextId]? = some node := by
      rw [hafter _ (by simp [nextId])]
      exact congrArg some (List.getElem_concat_length rfl _)
    rw [hnone, hlast]
    simp [hended]

section Tracked

variable {stolen : List Voice} {node : Node} {u v : Studio} {id : VoiceId} {depth : Nat}
variable (hv : Cleared k stolen node s u) (htrack : track (emitAt depth) k node u = .ok id v)

include hv htrack

theorem played_of_track : (s.instrument k).played ++ [node] <+: (v.instrument k).played := by
  have htracks := ends_track hv.sound (emits_emitAt depth) (Studio.getElem?_instrument hv.size) hv.known
  rw [← hv.played]
  exact Studio.played_of_track hv.size (ends_of_ok htrack htracks).2.2

theorem registry_of_live (hlive : (node.state s).ended = false) :
    (v.instrument k).voices = (s.instrument k).voices.map (mark (stolen.map Voice.id)) ++
        [⟨(s.instrument k).nextId, node, false⟩] ∧
      (v.instrument k).nextId = (s.instrument k).nextId + 1 := by
  obtain ⟨-, hinstruments⟩ := ends_of_ok htrack (ends_track_live (hv.ended.trans hlive))
  rw [Studio.instrument_of_modify hinstruments hv.size]
  refine ⟨by rw [register, hv.voices, hv.nextId], ?_⟩
  rw [nextId, register, hv.played, List.length_append]
  rfl

theorem registry_of_ended (hended : (node.state s).ended = true) (hexact : (s.instrument k).Exact s)
    (hquiet : (s.instrument k).Quiet) :
    (v.instrument k).voices = (s.instrument k).voices.map (mark (stolen.map Voice.id)) ∧
      (v.instrument k).nextId = (s.instrument k).nextId + 1 := by
  obtain ⟨hvoices, hplayed, -⟩ := ends_of_ok htrack (hushed_track_ended (hv.ended.trans hended) hv.size
    (hv.fresh hexact) (hv.quiet hquiet) fun event _ => hushed_emitAt depth event)
  refine ⟨by rw [hvoices, hv.voices], ?_⟩
  rw [nextId, hplayed, hv.played, List.length_append]
  rfl

end Tracked

theorem fails_of_start {past : Past} {e : Error} (hlawful : Moment.Lawful ⟨s.ledger, [], past⟩)
    (hk : k < s.instruments.size) (hplay : play.Known s.ledger)
    (hstart : Instrument.start k play time delay duration s = .error e t) :
    Fails k play time delay duration s e t := by
  have hs := hlawful.sound
  have hbefore : (Session.mk s past).moment.Lawful := hlawful
  have hexact : (s.instrument k).Exact s := Session.exact_of_lawful hbefore k
  rcases steps_of_error hs hplay hstart with hready | ⟨node, u, hready, hrest⟩
  · have hsame := (ends_of_error hready (settled_ready hs hplay)).instruments
    have hinst := Studio.instrument_congr hsame k
    exact .unready hready (by rw [hinst]) (by rw [hinst])
  rcases hrest with ⟨stolen, voice, rest, v, hexcess, hsteals, hfails⟩ | ⟨v, hsteals, henter⟩
  · have hv : Cleared k stolen node s v := cleared_of_steals hs hplay hk hready hsteals
    have hsame : t.instruments = v.instruments :=
      ends_of_error hfails (Node.keeps_stop (R := Aside) voice.node _ v)
    have hinst := Studio.instrument_congr hsame k
    exact .crowded node u v stolen rest voice hready hexcess hsteals hfails
      (by rw [hinst, hv.voices]) (by rw [hinst, hv.nextId])
  have hv : Cleared k (s.instrument k).excess node s v :=
    cleared_of_steals hs hplay hk hready hsteals
  obtain ⟨id, w, htrack, hfails⟩ := sound_of_enter hv.sound hv.known hv.size henter
  -- From here on the registry is as the new voice found it.
  have hsame : t.instruments = w.instruments :=
    ends_of_error hfails (keeps_sound (R := Aside) node _ duration w)
  have hinst := Studio.instrument_congr hsame k
  cases hended : (node.state s).ended with
  | false =>
      have hlive := registry_of_live hv htrack hended
      rw [← hinst] at hlive
      exact .silent node u w hready hfails hended hlive.1 hlive.2
  | true =>
      have hpays : Pays 0 [] s t := ends_of_error hstart (carries_start hs hk hplay)
      have hafter : (Session.mk t past).moment.Lawful := (hpays [] past).lawful hlawful
      have hplayed : (s.instrument k).played ++ [node] <+: (t.instrument k).played := by
        rw [hinst]
        exact played_of_track hv htrack
      have hgone : (node.state t).ended = true := by
        rw [Node.state_ended] at hended ⊢
        exact (hpays.grows.fate node.id).ended hended
      have hroster : s.ledger.roster k = some (s.instrument k).roster := by
        simp [Studio.ledger, Studio.instrument, hk]
      refine .late node u w hready hfails hended ?ids ?next ?quiet
      case ids =>
          intro id hid
          exact registered_iff hexact (Session.exact_of_lawful hafter k)
            (ends_of_error hstart sustained_start) (hs.roster k _ hroster).played hgone hplayed hid
      case next =>
          have hlength := hplayed.length_le
          rw [List.length_append] at hlength
          exact hlength
      case quiet =>
          rw [hinst]
          exact registry_of_ended hv htrack hended hexact

end Fails

end Instrument

namespace Session

open Instrument

-- Wherever a start fails, the registry shows what the steps before did, and nothing else.
theorem start_fails (rate : Float) (commands : List Command) (k : InstrumentId) (play : Play)
    (time delay duration : Option Float) (e : Error) (t : Studio)
    (hk : (run rate commands).studio.hasInstrument k = true)
    (hplay : play.Known (run rate commands).studio.ledger)
    (hstart : Instrument.start k play time delay duration (run rate commands).studio = .error e t) :
    Fails k play time delay duration (run rate commands).studio e t :=
  fails_of_start (lawful_run rate commands) (of_decide_eq_true hk) hplay hstart

-- The voice would have to stop later than any time there is. Two have made room for it by then.
theorem room_made_in_vain : ∃ e t, Instrument.start 0 (.value 220) (some 1e308) none (some 1e308)
      (run 44100 crowded).studio = .error e t ∧
    Fails 0 (.value 220) (some 1e308) none (some 1e308) (run 44100 crowded).studio e t ∧
    (t.instrument 0).voiceIds = [0, 1, 2, 3] ∧ (t.instrument 0).soundingIds = [2, 3] := by
  have hfacts : (run 44100 crowded).studio.hasInstrument 0 = true ∧
      (Instrument.start 0 (.value 220) (some 1e308) none (some 1e308)).succeeds
        (run 44100 crowded).studio = false ∧
      (((Instrument.start 0 (.value 220) (some 1e308) none (some 1e308)).after
        (run 44100 crowded).studio).instrument 0).voiceIds = [0, 1, 2, 3] ∧
      (((Instrument.start 0 (.value 220) (some 1e308) none (some 1e308)).after
        (run 44100 crowded).studio).instrument 0).soundingIds = [2, 3] := by
    decide +kernel
  obtain ⟨hk, hfails, hids, hsounding⟩ := hfacts
  obtain ⟨e, hstart⟩ := Act.error_of_not_succeeds hfails
  exact ⟨e, _, hstart, start_fails 44100 crowded 0 (.value 220) (some 1e308) none (some 1e308) e _ hk
    trivial hstart, hids, hsounding⟩

def lone : List Command := [.instrument 0 false (some .sine) none 0]

-- A voice that cannot sound is registered all the same, and takes an id.
theorem not_taken_back : ¬∀ (rate : Float) (commands : List Command) (k : InstrumentId) (play : Play)
    (time delay duration : Option Float) (e : Error) (t : Studio),
    (run rate commands).studio.hasInstrument k = true →
    play.Known (run rate commands).studio.ledger →
    Instrument.start k play time delay duration (run rate commands).studio = .error e t →
      (t.instrument k).voiceIds = ((run rate commands).studio.instrument k).voiceIds ∧
      (∀ id, (t.instrument k).stopped? id = ((run rate commands).studio.instrument k).stopped? id) ∧
      (t.instrument k).nextId = ((run rate commands).studio.instrument k).nextId := by
  intro h
  have hfacts : (run 44100 lone).studio.hasInstrument 0 = true ∧
      (Instrument.start 0 (.value 440) (some 1e308) (some 1e308) none).succeeds
        (run 44100 lone).studio = false ∧
      ((run 44100 lone).studio.instrument 0).nextId = 0 ∧
      (((Instrument.start 0 (.value 440) (some 1e308) (some 1e308) none).after
        (run 44100 lone).studio).instrument 0).nextId = 1 := by
    decide +kernel
  obtain ⟨hk, hfails, hbefore, hafter⟩ := hfacts
  obtain ⟨e, hstart⟩ := Act.error_of_not_succeeds hfails
  have hnext := (h 44100 lone 0 (.value 440) (some 1e308) (some 1e308) none e _ hk trivial hstart).2.2
  rw [hafter, hbefore] at hnext
  exact Nat.one_ne_zero hnext

end Session

end Patchbay
