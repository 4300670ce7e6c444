import Patchbay.Proofs.Node.Drafts
import Patchbay.Proofs.Observers.Passive

namespace Patchbay

open Act

-- It asks about nothing but instruments and which nodes have ended.
class Narrow (R : Studio → Studio → Prop) : Prop extends IsPreorder Studio R where
  same : ∀ s t : Studio, t.nodes = s.nodes → t.instruments = s.instruments → R s t
  push : ∀ (s : Studio) state, R s { s with nodes := s.nodes.push state }
  change : ∀ (s : Studio) id (f : NodeState → NodeState), (∀ state, (f state).ended = state.ended) →
    R s { s with nodes := s.nodes.modify id f }

section Narrow

variable {R : Studio → Studio → Prop} [Narrow R]

theorem narrow_modify {f : Studio → Studio} (hnodes : ∀ s, (f s).nodes = s.nodes)
    (hinstruments : ∀ s, (f s).instruments = s.instruments) : Keeps R (modify f) :=
  keeps_modify fun s => Narrow.same s _ (hnodes s) (hinstruments s)

theorem narrow_changeNode (id : NodeId) {f : NodeState → NodeState}
    (hf : ∀ state, (f state).ended = state.ended) : Keeps R (changeNode id f) :=
  keeps_modify fun s => Narrow.change s id f hf

theorem narrow_host (context : ContextId) (call : Engine → Except HostFault Engine) :
    Keeps R (Act.host context call) :=
  fun s => along_host fun _ _ => ⟨Narrow.same s _ rfl rfl, trivial⟩

theorem narrow_enrol (context : ContextId) (label : String) (duration release : Option Float)
    (make : NodeInfo → Node) : Keeps R (Node.enrol context label duration release make) := by
  intro s
  have hlisten (member : NodeId) : Keeps R (changeNode member fun state =>
      { state with listeners := state.listeners ++ [.whole s.nodes.size] }) :=
    narrow_changeNode member fun _ => rfl
  refine along_read (along_bind (along_set (Narrow.push s _)) fun _ t _ _ => ?_)
  exact along_bind (keeps_forM (fun member _ => hlisten member) t) fun _ _ _ _ => along_pure trivial

instance : Wires R where
  request context request := narrow_host context request.send
  started id := narrow_changeNode id fun _ => rfl
  connected id _ := narrow_changeNode id fun _ => rfl

instance : Composes R where
  created context kind := keeps_bind (keeps_engine context) fun _ =>
    keeps_bind (narrow_modify (fun _ => rfl) fun _ => rfl) fun _ => keeps_pure _
  enrolled context label duration release make _ := narrow_enrol context label duration release make
  watched context _ _ := keeps_bind (keeps_engine context) fun _ =>
    narrow_modify (fun _ => rfl) fun _ => rfl
  warned _ := narrow_modify (fun _ => rfl) fun _ => rfl
  read read s := by
    unfold Along Ends reading
    cases read s.warnings with
    | ok a warnings => exact ⟨Narrow.same s _ rfl rfl, trivial⟩
    | error e warnings => exact Narrow.same s _ rfl rfl
  opened _ s := by
    unfold Along Builder.new
    rw [ends_modifyGet]
    exact ⟨Narrow.same s _ rfl rfl, trivial⟩
  memoized _ _ _ := narrow_modify (fun _ => rfl) fun _ => rfl

theorem Node.narrow_disconnect (node : Node) : Keeps R node.disconnect :=
  node.keeps_disconnect (fun _ _ => narrow_changeNode _ fun _ => rfl)
    (fun context _ => narrow_host context _) fun id => narrow_changeNode id fun _ => rfl

end Narrow

-- Instruments are as they were.
def Aside (s t : Studio) : Prop := t.instruments = s.instruments

instance : Narrow Aside where
  refl _ := rfl
  trans _ _ _ h h' := Eq.trans h' h
  same _ _ _ h := h
  push _ _ := rfl
  change _ _ _ _ := rfl

-- A whole has not ended when it is made, if none of its members had ended before it was made.
theorem Ledger.Fits.ended_enrol {N : Nat} {L : Ledger} {node : Node} (hfits : L.Fits N node)
    (hnew : ∀ id, N ≤ id → (L.fate id).ended = false) (id : NodeId) :
    ((L.enrol node).fate id).ended = (L.fate id).ended := by
  by_cases hid : id = node.id
  · have hawaits : L.awaits node = node.awaited := by
      refine List.filter_eq_self.2 fun member hmember => ?_
      obtain ⟨part, hpart, -, rfl⟩ := Node.mem_awaited.1 hmember
      rw [hnew part.id (hfits.parts part (node.members_subset_parts hpart)).late]
      rfl
    rw [hid, L.fate_enrol_self, hfits.absent, entry, hawaits]
    cases node.awaited.isEmpty <;> rfl
  · exact L.same_enrol Fate.ended (fun _ => rfl) hid

theorem Makes.ended {N : Nat} {L M : Ledger} (h : Makes N L M)
    (hnew : ∀ id, N ≤ id → (L.fate id).ended = false) (id : NodeId) :
    (M.fate id).ended = (L.fate id).ended := by
  cases h with
  | node node hfits => exact hfits.ended_enrol hnew id
  | source node host kind hfits => exact hfits.ended_enrol hnew id
  | openContext | create | request | watch | builder | memo | instrument => rfl

-- Making a voice out of what is new ends nothing, and the voice has not ended either.
theorem Made.ended {N : Nat} {L M : Ledger} (h : Made N L M)
    (hnew : ∀ id, N ≤ id → (L.fate id).ended = false) (id : NodeId) :
    (M.fate id).ended = (L.fate id).ended := by
  induction h generalizing id with
  | refl => rfl
  | tail _ hstep ih =>
      rw [hstep.ended (fun other hother => (ih other).trans (hnew other hother)), ih]

-- Instruments are as they were, and the same nodes have ended.
structure Settled (s t : Studio) : Prop where
  instruments : t.instruments = s.instruments
  ended : ∀ id, (t.ledger.fate id).ended = (s.ledger.fate id).ended
  grows : s.ledger.Grows t.ledger

namespace Settled

variable {s t : Studio}

theorem of_ledger (hinstruments : t.instruments = s.instruments) (h : t.ledger = s.ledger) :
    Settled s t :=
  ⟨hinstruments, fun _ => by rw [h], h ▸ .refl _⟩

instance : IsPreorder Studio Settled where
  refl _ := of_ledger rfl rfl
  trans _ _ _ h h' := ⟨h'.instruments.trans h.instruments,
    fun id => (h'.ended id).trans (h.ended id), h.grows.trans h'.grows⟩

instance : Wires Settled where
  request context request s := along_host fun engine h => by
    have hledger := s.ledger_request h
    refine ⟨⟨rfl, fun id => ?_, ?_⟩, trivial⟩
    · rw [hledger, Ledger.fate_setHost]
    · rw [hledger]
      exact s.ledger.grows_setHost context request.host request.grows_mark
  started id := keeps_modify fun s => of_ledger rfl (s.ledger_changeNode_eq id fun _ => rfl)
  connected id _ := keeps_modify fun s => of_ledger rfl (s.ledger_changeNode_eq id fun _ => rfl)

end Settled

namespace Instrument

-- The node that is to be played, connected to where the instrument plays.
def ready (inst : Instrument) (play : Play) : Act Node := do
  let node ← inst.nodeFor play
  match inst.destination with
  | some destination => node.connect (.node destination)
  | none => pure ()
  return node

-- It sounds from `time` on, for as long as the voice lasts.
def sound (node : Node) (time : Float) (duration : Option Float) : Act Unit := do
  node.start time
  match duration.filter (0 < ·) with
  | some duration => node.stop (time + duration)
  | none => pure ()

-- The voice is registered, started at `time`, and announced.
def enter (emit : Emit) (inst : InstrumentId) (node : Node) (time : Float)
    (duration : Option Float) : Act Node := do
  let id ← track emit inst node
  sound node time duration
  emit inst (.started id time)
  countVoices emit inst
  return node

theorem startWith_eq (emit : Emit) (inst : InstrumentId) (play : Play)
    (time delay duration : Option Float) : startWith emit inst play time delay duration = (do
      let node ← (← Act.instrument inst).ready play
      let time := Time.resolve time delay (← Act.now node.context)
      steal inst time
      enter emit inst node time duration) := by
  unfold startWith ready enter sound
  simp only [bind_assoc]
  refine congrArg _ (funext fun state => congrArg _ (funext fun node => ?_))
  cases state.destination <;> cases duration.filter (0 < ·) <;> simp only [bind_assoc, pure_bind]

theorem keeps_sound {R : Studio → Studio → Prop} [Wires R] (node : Node) (time : Float)
    (duration : Option Float) : Keeps R (sound node time duration) := by
  refine keeps_bind (Node.keeps_start node time) fun _ => ?_
  split
  · exact Node.keeps_stop node _
  · exact keeps_pure _

end Instrument

variable {s : Studio} {k : InstrumentId}

theorem settled_nodeFor {play : Play} (hs : s.ledger.Sound 0) (hplay : play.Known s.ledger) :
    Along Settled ((s.instrument k).nodeFor play) s fun node t =>
      t.ledger.Sound 0 ∧ t.ledger.Knows node := by
  cases play with
  | node node => exact along_pure ⟨hs, hplay⟩
  | value x =>
      unfold Instrument.nodeFor
      dsimp only
      split
      case h_2 => exact along_throw _
      case h_1 recipe hsynth =>
          have hnew (id : NodeId) (hid : s.ledger.size ≤ id) : (s.ledger.fate id).ended = false :=
            congrArg Fate.ended (Studio.fate_of_size_le hid)
          have hmade {t : Studio} (h : Made s.ledger.size s.ledger t.ledger) (haside : Aside s t) :
              Settled s t := ⟨haside, h.ended hnew, h.grows⟩
          have hbuild : Offering s.ledger.size (recipe.build (s.instrument k).context x) s :=
            Recipe.offering_build (hs.fresh.ready (opened_of_sound hs k))
          refine Ends.mono (hbuild.and (Recipe.keeps_build (R := Aside) recipe x s)) ?_
            fun _ t h => hmade h.1 h.2
          exact fun node t h => ⟨hmade h.1.1 h.2.1,
            (Pays.of_building h.1.1).weaken.sound hs, h.1.2.known⟩

theorem settled_ready {play : Play} (hs : s.ledger.Sound 0) (hplay : play.Known s.ledger) :
    Along Settled ((s.instrument k).ready play) s fun node t =>
      t.ledger.Sound 0 ∧ t.ledger.Knows node := by
  refine along_bind (settled_nodeFor hs hplay) fun node t hst hnode => ?_
  dsimp only
  split
  case h_1 destination _ =>
      have hconnects : Along Settled (node.connect (.node destination)) t fun _ u => Pays 0 [] t u :=
        (Node.keeps_connect node _).both (Node.keeps_connect node _) t
      refine along_bind hconnects fun _ u htu hpays => ?_
      exact along_pure ⟨hpays.sound hnode.1, hnode.2.grow htu.grows⟩
  case h_2 => exact along_pure hnode

namespace Instrument

def markAll (inst : Instrument) (voices : List Voice) : Instrument :=
  voices.foldl (fun inst voice => inst.markStopped voice.id) inst

theorem modify_markAll_nil (instruments : Array Instrument) (k : InstrumentId) :
    instruments.modify k (·.markAll []) = instruments := by
  apply Array.ext_getElem?
  intro j
  simp [Array.getElem?_modify, markAll]

theorem modify_markAll_cons (instruments : Array Instrument) (k : InstrumentId) (voice : Voice)
    (rest : List Voice) : instruments.modify k (·.markAll (voice :: rest)) =
      (instruments.modify k (·.markStopped voice.id)).modify k (·.markAll rest) := by
  apply Array.ext_getElem?
  intro j
  simp only [Array.getElem?_modify]
  split <;> simp [Function.comp_def, markAll]

-- From one studio to the other the voices are stolen: each in turn is stopped once, at `time`, and
-- marked.
inductive Steals (k : InstrumentId) (time : Float) : List Voice → Studio → Studio → Prop where
  | done {s : Studio} : Steals k time [] s s
  | next {voice : Voice} {rest : List Voice} {s t u : Studio}
      (hstop : voice.node.stop time s = .ok () t)
      (hrest : Steals k time rest
        { t with instruments := t.instruments.modify k (·.markStopped voice.id) } u) :
      Steals k time (voice :: rest) s u

theorem steals_of_ok {time : Float} {voices : List Voice} {t : Studio}
    (h : stopEach k (fun _ => return time) voices s = .ok ⟨⟩ t) : Steals k time voices s t := by
  induction voices generalizing s with
  | nil =>
      cases h
      exact .done
  | cons voice rest ih =>
      rw [stopEach, pure_bind] at h
      obtain ⟨⟨⟩, u, hstop, h⟩ := ok_of_seq h
      obtain ⟨⟨⟩, v, hmark, h⟩ := ok_of_seq h
      cases hmark
      exact .next hstop (ih h)

-- What fails is a stop, and the voices before that one are stolen.
theorem steals_of_error {time : Float} {voices : List Voice} {e : Error} {t : Studio}
    (h : stopEach k (fun _ => return time) voices s = .error e t) :
    ∃ stolen voice rest u, voices = stolen ++ voice :: rest ∧ Steals k time stolen s u ∧
      voice.node.stop time u = .error e t := by
  induction voices generalizing s with
  | nil => cases h
  | cons voice rest ih =>
      rw [stopEach, pure_bind] at h
      rcases error_of_seq h with hstop | ⟨⟨⟩, u, hstop, h⟩
      · exact ⟨[], voice, rest, s, rfl, .done, hstop⟩
      · rcases error_of_seq h with hmark | ⟨⟨⟩, v, hmark, h⟩
        · cases hmark
        · cases hmark
          obtain ⟨stolen, failing, others, w, hrest, hsteals, hfails⟩ := ih h
          exact ⟨voice :: stolen, failing, others, w, by rw [hrest, List.cons_append],
            .next hstop hsteals, hfails⟩

theorem Steals.along {R : Studio → Studio → Prop} [Plays R] {time : Float} {voices : List Voice}
    {t : Studio} (h : Steals k time voices s t) : R s t := by
  induction h with
  | done => exact refl _
  | @next voice rest s t u hstop _ ih =>
      have hst : R s t := (ends_of_ok hstop (Node.keeps_stop voice.node time s)).1
      have hmark : changeInstrument k (·.markStopped voice.id) t =
        .ok ⟨⟩ { t with instruments := t.instruments.modify k (·.markStopped voice.id) } := rfl
      have hmark := (ends_of_ok hmark (Plays.stopped (R := R) k voice.id t)).1
      exact trans_of R hst (trans_of R hmark ih)

theorem Steals.ended {time : Float} {voices : List Voice} {t : Studio}
    (h : Steals k time voices s t) (id : NodeId) :
    (t.ledger.fate id).ended = (s.ledger.fate id).ended := by
  induction h with
  | done => rfl
  | @next voice rest s t u hstop _ ih =>
      have hst : Settled s t := (ends_of_ok hstop (Node.keeps_stop voice.node time s)).1
      rw [ih, t.ledger_changeInstrument_eq k fun inst => inst.roster_markStopped voice.id]
      exact hst.ended id

theorem Steals.instruments {time : Float} {voices : List Voice} {t : Studio}
    (h : Steals k time voices s t) : t.instruments = s.instruments.modify k (·.markAll voices) := by
  induction h with
  | done => exact (modify_markAll_nil _ k).symm
  | @next voice rest s t u hstop _ ih =>
      have haside : t.instruments = s.instruments :=
        (ends_of_ok hstop (Node.keeps_stop (R := Aside) voice.node time s)).1
      rw [ih, haside, modify_markAll_cons]

end Instrument

section Steps

variable {play : Play} {time delay duration : Option Float} {t : Studio}

-- A start that succeeds gets a node ready, then steals voices, and then enters its own.
theorem steps_of_ok {r : Node} (hs : s.ledger.Sound 0) (hplay : play.Known s.ledger)
    (h : Instrument.start k play time delay duration s = .ok r t) : ∃ node u v,
      (s.instrument k).ready play s = .ok node u ∧
        Instrument.Steals k (Time.resolve time delay (u.now node.context)) (s.instrument k).excess u v ∧
        Instrument.enter (Instrument.emitAt s.credit) k node
          (Time.resolve time delay (u.now node.context)) duration v = .ok r t := by
  unfold Instrument.start at h
  obtain ⟨emit, s', hemit, h⟩ := ok_of_seq h
  cases hemit
  rw [Instrument.startWith_eq] at h
  obtain ⟨inst, s', hinst, h⟩ := ok_of_seq h
  cases hinst
  obtain ⟨node, u, hready, h⟩ := ok_of_seq h
  obtain ⟨now, u', hnow, h⟩ := ok_of_seq h
  cases hnow
  obtain ⟨⟨⟩, v, hsteal, h⟩ := ok_of_seq h
  unfold Instrument.steal at hsteal
  obtain ⟨inst, u', hinst, hsteal⟩ := ok_of_seq hsteal
  cases hinst
  have hsame : u.instrument k = s.instrument k :=
    Studio.instrument_congr (ends_of_ok hready (settled_ready hs hplay)).1.instruments k
  refine ⟨node, u, v, hready, ?_, h⟩
  rw [← hsame]
  exact Instrument.steals_of_ok hsteal

-- A start that fails does so in one of the steps.
theorem steps_of_error {e : Error} (hs : s.ledger.Sound 0) (hplay : play.Known s.ledger)
    (h : Instrument.start k play time delay duration s = .error e t) :
    (s.instrument k).ready play s = .error e t ∨ ∃ node u,
      (s.instrument k).ready play s = .ok node u ∧
        ((∃ stolen voice rest v, (s.instrument k).excess = stolen ++ voice :: rest ∧
            Instrument.Steals k (Time.resolve time delay (u.now node.context)) stolen u v ∧
            voice.node.stop (Time.resolve time delay (u.now node.context)) v = .error e t) ∨
          ∃ v, Instrument.Steals k (Time.resolve time delay (u.now node.context))
              (s.instrument k).excess u v ∧
            Instrument.enter (Instrument.emitAt s.credit) k node
              (Time.resolve time delay (u.now node.context)) duration v = .error e t) := by
  unfold Instrument.start at h
  rcases error_of_seq h with hemit | ⟨emit, s', hemit, h⟩
  · cases hemit
  cases hemit
  rw [Instrument.startWith_eq] at h
  rcases error_of_seq h with hinst | ⟨inst, s', hinst, h⟩
  · cases hinst
  cases hinst
  rcases error_of_seq h with hready | ⟨node, u, hready, h⟩
  · exact .inl hready
  refine .inr ⟨node, u, hready, ?_⟩
  have hsame : u.instrument k = s.instrument k :=
    Studio.instrument_congr (ends_of_ok hready (settled_ready hs hplay)).1.instruments k
  rcases error_of_seq h with hnow | ⟨now, u', hnow, h⟩
  · cases hnow
  cases hnow
  rw [← hsame]
  rcases error_of_seq h with hsteal | ⟨⟨⟩, v, hsteal, h⟩
  · unfold Instrument.steal at hsteal
    rcases error_of_seq hsteal with hinst | ⟨inst, u', hinst, hsteal⟩
    · cases hinst
    cases hinst
    exact .inl (Instrument.steals_of_error hsteal)
  · unfold Instrument.steal at hsteal
    obtain ⟨inst, u', hinst, hsteal⟩ := ok_of_seq hsteal
    cases hinst
    exact .inr ⟨v, Instrument.steals_of_ok hsteal, h⟩

end Steps

-- The node is registered, and nobody listens for its end yet.
def Studio.registering (s : Studio) (k : InstrumentId) (node : Node) : Studio :=
  { s with
    instruments := s.instruments.modify k (·.register node)
    nodes := s.nodes.modify node.id fun state =>
      { state with voice := some (s.instrument k).nextId } }

section Enter

variable {N depth : Nat} {node : Node} {time : Float} {duration : Option Float}

-- Whoever is told of it, the ledger only grows; and if nobody acts, nothing else happens.
def Told (k : InstrumentId) (s t : Studio) : Prop :=
  s.ledger.Grows t.ledger ∧ ((s.instrument k).Quiet → Whispered k s t)

theorem Told.trans {t u : Studio} (h : Told k s t) (h' : Told k t u) : Told k s u :=
  ⟨h.1.trans h'.1, fun hquiet =>
    have hst := h.2 hquiet
    trans_of (Whispered k) hst (h'.2 (hst.quiet hquiet))⟩

theorem ends_told (event : Event) (hs : s.ledger.Sound N) :
    Ends (Instrument.emitAt depth k event) s (fun _ t => t.ledger.Sound N ∧ Told k s t)
      fun _ _ => False := by
  have htold := emits_emitAt depth k event s hs
  by_cases hquiet : (s.instrument k).Quiet
  · exact (Ends.and htold (whispered_emitAt depth event hquiet)).mono
      (fun _ _ h => ⟨h.1.sound hs, h.1.grows, fun _ => h.2.1⟩) fun _ _ h => h.1
  · exact Ends.mono htold (fun _ _ h => ⟨h.sound hs, h.grows, fun h => absurd h hquiet⟩)
      fun _ _ h => h

theorem ends_counted (hs : s.ledger.Sound N) :
    Ends (Instrument.countVoices (Instrument.emitAt depth) k) s
      (fun _ t => t.ledger.Sound N ∧ Told k s t) fun _ _ => False := by
  unfold Instrument.countVoices Act.instrument
  simp only [ends_bind, ends_get, ends_pure]
  exact ends_told _ hs

theorem ends_announced (id : VoiceId) (hs : s.ledger.Sound N) : Ends (do
      Instrument.emitAt depth k (.started id time)
      Instrument.countVoices (Instrument.emitAt depth) k
      return node) s
    (fun r t => r = node ∧ Told k s t) fun _ _ => False := by
  simp only [ends_bind, ends_pure]
  refine Ends.mono (ends_told (.started id time) hs) ?_ fun _ _ h => h
  rintro _ t ⟨ht, htold⟩
  refine Ends.mono (ends_counted ht) ?_ fun _ _ h => h
  rintro _ u ⟨-, hcounted⟩
  exact ⟨trivial, htold.trans hcounted⟩

section Track

variable {emit : Instrument.Emit}

theorem ends_track_iff {ok : VoiceId → Studio → Prop} {fail : Error → Studio → Prop} :
    Ends (Instrument.track emit k node) s ok fail ↔
      Ends (if (s.ledger.fate node.id).ended then Instrument.remove emit k (s.instrument k).nextId
          else changeNode node.id fun state =>
            { state with listeners := state.listeners ++ [.voice k (s.instrument k).nextId] })
        (s.registering k node) (fun _ t => ok (s.instrument k).nextId t) fail := by
  have hended : (node.state (s.registering k node)).ended = (s.ledger.fate node.id).ended := by
    let t : Studio := { s with instruments := s.instruments.modify k (·.register node) }
    have hledger : (s.registering k node).ledger = t.ledger :=
      t.ledger_changeNode_eq node.id
        (f := fun state => { state with voice := some (s.instrument k).nextId }) fun _ => rfl
    rw [node.state_ended, hledger]
    rfl
  unfold Instrument.track Act.instrument
  simp only [ends_bind, ends_get, ends_pure, changeInstrument, changeNode, ends_modify]
  change Ends (if (node.state (s.registering k node)).ended = true then _ else _)
    (s.registering k node) _ _ ↔ _
  rw [hended]
  split <;> simp only [ends_bind, ends_pure] <;> rfl

-- A node that has not ended is registered, and nobody is told yet.
theorem ends_track_live (hlive : (s.ledger.fate node.id).ended = false) :
    Ends (Instrument.track emit k node) s
      (fun id t => id = (s.instrument k).nextId ∧
        t.instruments = s.instruments.modify k (·.register node))
      fun _ _ => False := by
  rw [ends_track_iff, hlive, if_neg Bool.false_ne_true, changeNode, ends_modify]
  exact ⟨rfl, rfl⟩

-- With the voice off the registry, its node is disconnected and observers are told.
theorem ends_remove {R : Studio → Studio → Prop} [IsPreorder Studio R]
    (hfiner : ∀ s t, R s t → Hushed k s t) {id : VoiceId} {voice : Voice}
    (hk : k < s.instruments.size) (hvoice : (s.instrument k).voice? id = some voice)
    (hquiet : (s.instrument k).Quiet) (hcut : Keeps R voice.node.disconnect)
    (hwarned : ∀ warning, Keeps R (warn warning))
    (hemit : ∀ event t, (t.instrument k).Quiet → Along R (emit k event) t fun _ _ => True) :
    Ends (Instrument.remove emit k id) s
      (fun _ t => R { s with instruments := s.instruments.modify k (·.erase id) } t)
      fun _ t => R { s with instruments := s.instruments.modify k (·.erase id) } t := by
  let t : Studio := { s with instruments := s.instruments.modify k (·.erase id) }
  have hquiet : (t.instrument k).Quiet := by
    rw [s.instrument_modify, if_pos ⟨rfl, hk⟩]
    exact hquiet
  have hrest : Along R (do
      try voice.node.disconnect
      catch e => warn (.stuckVoice id e.message)
      emit k (.ended id)
      Instrument.countVoices emit k) t fun _ _ => True := by
    have hcut : Keeps R (tryCatch voice.node.disconnect fun e => warn (.stuckVoice id e.message)) :=
      keeps_catch hcut fun _ => hwarned _
    refine along_bind (hcut t) fun _ u htu _ => ?_
    have hquiet := (hfiner t u htu).quiet hquiet
    refine along_bind (hemit (.ended id) u hquiet) fun _ v huv _ => ?_
    exact along_instrument (hemit _ v ((hfiner u v huv).quiet hquiet))
  unfold Instrument.remove
  simp only [Act.instrument, ends_bind, ends_get, ends_pure]
  rw [show ((s.instruments[k]?).getD (.new 0)).voice? id = some voice from hvoice]
  dsimp only
  rw [changeInstrument, ends_bind, ends_modify]
  exact Ends.mono hrest (fun _ _ h => h.1) fun _ _ h => h

theorem hushed_remove {id : VoiceId} {voice : Voice}
    (hk : k < s.instruments.size) (hvoice : (s.instrument k).voice? id = some voice)
    (hquiet : (s.instrument k).Quiet)
    (hemit : ∀ event t, (t.instrument k).Quiet → Along (Hushed k) (emit k event) t fun _ _ => True) :
    Ends (Instrument.remove emit k id) s
      (fun _ t => (t.instrument k).voices = (s.instrument k).voices.filter (·.id != id) ∧
        (t.instrument k).played = (s.instrument k).played ∧ (t.instrument k).Quiet)
      fun _ _ => True := by
  have hcut : Keeps (Hushed k) voice.node.disconnect :=
    (Node.narrow_disconnect (R := Aside) voice.node).mono fun _ _ => .of_instruments
  have hwarned (warning : Warning) : Keeps (Hushed k) (warn warning) :=
    keeps_modify fun _ => .of_instruments rfl
  refine Ends.mono (ends_remove (fun _ _ h => h) hk hvoice hquiet hcut hwarned hemit) ?_
    fun _ _ _ => trivial
  intro _ t hst
  have herased : ({ s with instruments := s.instruments.modify k (·.erase id) } : Studio).instrument k =
      (s.instrument k).erase id := by
    rw [s.instrument_modify, if_pos ⟨rfl, hk⟩]
  refine ⟨?_, ?_, hst.quiet (herased ▸ hquiet)⟩
  · rw [hst.voices, herased]
    rfl
  · rw [hst.played, herased]
    rfl

-- It is registered as the voice with the next id.
theorem registering_spec (node : Node) (hk : k < s.instruments.size)
    (hids : ∀ voice ∈ (s.instrument k).voices, voice.id ≠ (s.instrument k).nextId) :
    k < (s.registering k node).instruments.size ∧
      (s.registering k node).instrument k = (s.instrument k).register node ∧
      ((s.registering k node).instrument k).voice? (s.instrument k).nextId =
        some ⟨(s.instrument k).nextId, node, false⟩ := by
  have hinstruments : (s.registering k node).instruments =
    s.instruments.modify k (·.register node) := rfl
  have hregistered := Studio.instrument_of_modify hinstruments hk
  have hother : (s.instrument k).voices.find? (·.id == (s.instrument k).nextId) = none :=
    List.find?_eq_none.2 fun voice hvoice heq => hids voice hvoice (by simpa using heq)
  refine ⟨by simpa [Studio.registering] using hk, hregistered, ?_⟩
  rw [hregistered]
  simp [Instrument.voice?, Instrument.register, hother]

-- A node that has ended leaves at once. Its id is used up all the same.
theorem hushed_track_ended (hended : (s.ledger.fate node.id).ended = true)
    (hk : k < s.instruments.size) (hids : ∀ voice ∈ (s.instrument k).voices,
      voice.id ≠ (s.instrument k).nextId) (hquiet : (s.instrument k).Quiet)
    (hemit : ∀ event t, (t.instrument k).Quiet → Along (Hushed k) (emit k event) t fun _ _ => True) :
    Ends (Instrument.track emit k node) s
      (fun _ t => (t.instrument k).voices = (s.instrument k).voices ∧
        (t.instrument k).played = (s.instrument k).played ++ [node] ∧ (t.instrument k).Quiet)
      fun _ _ => True := by
  obtain ⟨hsize, hregistered, hvoice⟩ := registering_spec node hk hids
  have hkept : ((s.instrument k).register node).voices.filter (·.id != (s.instrument k).nextId) =
      (s.instrument k).voices := by
    have hall : (s.instrument k).voices.filter (·.id != (s.instrument k).nextId) =
        (s.instrument k).voices :=
      List.filter_eq_self.2 fun voice hvoice => by simpa using hids voice hvoice
    simp [Instrument.register, hall]
  have hremove := hushed_remove hsize hvoice (hregistered ▸ hquiet) hemit
  rw [hregistered, hkept] at hremove
  rw [ends_track_iff, if_pos hended]
  exact hremove

end Track

theorem sound_of_track {id : VoiceId} {t : Studio} (hs : s.ledger.Sound 0)
    (hnode : s.ledger.Knows node) (hk : k < s.instruments.size)
    (h : Instrument.track (Instrument.emitAt depth) k node s = .ok id t) : t.ledger.Sound 0 := by
  have htrack := ends_track hs (emits_emitAt depth) (Studio.getElem?_instrument hk) hnode
  exact (ends_of_ok h htrack).1.sound hs

-- A voice that has entered is registered after the others, unless its node had ended.
theorem entered {t : Studio} {r : Node} (hs : s.ledger.Sound 0) (hnode : s.ledger.Knows node)
    (hk : k < s.instruments.size)
    (hids : ∀ voice ∈ (s.instrument k).voices, voice.id ≠ (s.instrument k).nextId)
    (hquiet : (s.instrument k).Quiet)
    (h : Instrument.enter (Instrument.emitAt depth) k node time duration s = .ok r t) :
    r = node ∧ (t.instrument k).voices = (s.instrument k).voices ++
      if (s.ledger.fate node.id).ended then [] else [⟨(s.instrument k).nextId, node, false⟩] := by
  obtain ⟨id, u, htrack, h⟩ := ok_of_seq h
  obtain ⟨⟨⟩, v, hsound, h⟩ := ok_of_seq h
  have hsounds : Along Settled (Instrument.sound node time duration) u fun _ v => Pays 0 [] u v :=
    (Instrument.keeps_sound node time duration).both (Instrument.keeps_sound node time duration) u
  obtain ⟨huv, hpays⟩ := ends_of_ok hsound hsounds
  have hu := sound_of_track hs hnode hk htrack
  obtain ⟨rfl, -, htold⟩ := ends_of_ok h (ends_announced id (hpays.sound hu))
  have hushed (hquiet : (u.instrument k).Quiet) : Hushed k u t :=
    have hsounded : Hushed k u v := .of_instruments huv.instruments
    trans_of (Hushed k) hsounded (htold (hsounded.quiet hquiet)).toHushed
  refine ⟨rfl, ?_⟩
  cases hlive : (s.ledger.fate r.id).ended with
  | false =>
      obtain ⟨-, hinstruments⟩ := ends_of_ok htrack (ends_track_live hlive)
      have hu : u.instrument k = (s.instrument k).register r :=
        Studio.instrument_of_modify hinstruments hk
      rw [(hushed (hu ▸ hquiet)).voices, hu]
      rfl
  | true =>
      obtain ⟨hvoices, -, hquiet⟩ := ends_of_ok htrack
        (hushed_track_ended hlive hk hids hquiet fun event t => hushed_emitAt depth event)
      rw [(hushed hquiet).voices, hvoices]
      exact (List.append_nil _).symm

-- What fails is the sound. By then the voice is registered.
theorem sound_of_enter {t : Studio} {e : Error} (hs : s.ledger.Sound 0) (hnode : s.ledger.Knows node)
    (hk : k < s.instruments.size)
    (h : Instrument.enter (Instrument.emitAt depth) k node time duration s = .error e t) :
    ∃ id u, Instrument.track (Instrument.emitAt depth) k node s = .ok id u ∧
      Instrument.sound node time duration u = .error e t := by
  rcases error_of_seq h with htrack | ⟨id, u, htrack, h⟩
  · have htracks := ends_track hs (emits_emitAt depth) (Studio.getElem?_instrument hk) hnode
    exact (ends_of_error htrack htracks).elim
  · refine ⟨id, u, htrack, ?_⟩
    rcases error_of_seq h with hsound | ⟨⟨⟩, v, hsound, h⟩
    · exact hsound
    · have hpays : Pays 0 [] u v :=
        (ends_of_ok hsound (Instrument.keeps_sound node time duration u)).1
      have hv := hpays.sound (sound_of_track hs hnode hk htrack)
      exact (ends_of_error h (ends_announced id hv)).elim

end Enter

end Patchbay
