import Patchbay.Proofs.Voices.Exact

namespace Patchbay.Session

def Cut (session : Session) (context : ContextId) (host : HostId) : Prop :=
  ((session.studio.engine context).nodes[host]?).any (·.disconnected) = true

-- The voice was registered, and is no more.
def Left (session : Session) (k : InstrumentId) (id : VoiceId) (node : Node) : Prop :=
  (session.studio.instrument k).played[id]? = some node ∧
    id ∉ (session.studio.instrument k).voiceIds

-- Callers have disconnected the host node, on its own or with a node.
def Dropped (session : Session) (context : ContextId) (host : HostId) : Prop :=
  (context, host) ∈ session.past.silenced ∨
    host ≠ Engine.destination ∧ ∃ node ∈ session.past.dropped, (context, host) ∈ node.hosts

variable {session : Session}

theorem left_iff (k : InstrumentId) (id : VoiceId) (node : Node) : session.Left k id node ↔
    (session.moment.ledger.rosterOf k).played[id]? = some node ∧
      (session.moment.ledger.rosterOf k).left id = true := by
  rw [show session.moment.ledger.rosterOf k = _ from session.studio.rosterOf_eq k,
    Instrument.left_roster]
  refine and_congr_right fun hplayed => (and_iff_right ?_).symm
  exact (List.getElem?_eq_some_iff.1 hplayed).1

theorem cut_iff (h : session.moment.Lawful) (context : ContextId) (host : HostId) :
    session.Cut context host ↔ session.Dropped context host ∨ host ≠ Engine.destination ∧
      ∃ k id node, session.Left k id node ∧ (context, host) ∈ node.hosts := by
  have hcut := h.cuts.hostCut_iff h.sound rfl context host
  rw [Cut, ← Studio.hostCut_iff]
  refine hcut.trans ?_
  simp only [left_iff, Dropped, Moment.IsRoot]
  constructor
  · rintro (hmem | ⟨hne, node, hroot | ⟨k, id, hroot⟩, hreach⟩)
    · exact .inl (.inl hmem)
    · exact .inl (.inr ⟨hne, node, hroot, hreach⟩)
    · exact .inr ⟨hne, k, id, node, hroot, hreach⟩
  · rintro ((hmem | ⟨hne, node, hroot, hreach⟩) | ⟨hne, k, id, node, hroot, hreach⟩)
    · exact .inl hmem
    · exact .inr ⟨hne, node, .inl hroot, hreach⟩
    · exact .inr ⟨hne, node, .inr ⟨k, id, hroot⟩, hreach⟩

theorem ended_of_left (h : session.moment.Lawful) {k : InstrumentId} {id : VoiceId} {node : Node}
    (hleft : session.Left k id node) : (node.state session.studio).ended = true := by
  obtain ⟨hplayed, hgone⟩ := (left_iff k id node).1 hleft
  rw [node.state_ended]
  exact (h.registry.left k id node hplayed hgone).1

-- Over any stretch of a run, what is newly disconnected was dropped by callers, or was reached by a
-- voice that left meanwhile. A voice that is still registered loses just what it shares with those.
theorem disconnected_iff_shared (rate : Float) (commands more : List Command) :
    (∀ k id node, (run rate (commands ++ more)).Left k id node →
      (node.state (run rate (commands ++ more)).studio).ended = true ∧
        ∀ context host, (context, host) ∈ node.hosts → host ≠ Engine.destination →
          (run rate (commands ++ more)).Cut context host) ∧
      ∀ k, ∀ voice ∈ ((run rate (commands ++ more)).studio.instrument k).voices,
        ∀ context host, (context, host) ∈ voice.node.hosts → ¬(run rate commands).Cut context host →
          ((run rate (commands ++ more)).Cut context host ↔
            (run rate (commands ++ more)).Dropped context host ∨ host ≠ Engine.destination ∧
              ∃ k' id node, (run rate (commands ++ more)).Left k' id node ∧
                ¬(run rate commands).Left k' id node ∧ (context, host) ∈ node.hosts) := by
  have hbefore := lawful_run rate commands
  have hafter := lawful_run rate (commands ++ more)
  refine ⟨fun k id node hleft => ⟨ended_of_left hafter hleft, fun context host hreach hne => ?_⟩,
    fun k voice hvoice context host hreach hkept => ?_⟩
  · exact (cut_iff hafter context host).2 (.inr ⟨hne, k, id, node, hleft, hreach⟩)
  · rw [cut_iff hafter]
    refine or_congr_right (and_congr_right fun hne => ?_)
    constructor
    · rintro ⟨k', id, node, hleft, hshared⟩
      refine ⟨k', id, node, hleft, fun hgone => hkept ?_, hshared⟩
      exact (cut_iff hbefore context host).2 (.inr ⟨hne, k', id, node, hgone, hshared⟩)
    · rintro ⟨k', id, node, hleft, -, hshared⟩
      exact ⟨k', id, node, hleft, hshared⟩

-- Two oscillators sound through one gain, and the first of them is to end.
def throughOneGain : List Command := [
  .make 0 (.oscillator .sine (.fixed 440) none),
  .make 0 (.oscillator .sine (.fixed 220) none),
  .make 0 (.gain (.fixed 1)),
  .make 0 (.series 0 [2]),
  .make 0 (.series 1 [2]),
  .instrument 0 false none none 0,
  .play 0 3 none none (some 1),
  .play 0 4 none none none]

-- The second is registered still, and is no longer heard.
theorem not_kept_when_shared : ¬∀ (rate : Float) (commands more : List Command) (k : InstrumentId),
    ∀ voice ∈ ((run rate (commands ++ more)).studio.instrument k).voices,
      ∀ context host, (context, host) ∈ voice.node.hosts → ¬(run rate commands).Cut context host →
        ¬(run rate (commands ++ more)).Dropped context host →
          ¬(run rate (commands ++ more)).Cut context host := by
  intro h
  have hvoice : ∃ voice ∈ ((run 44100 (throughOneGain ++
      [.advanceTo 0 1])).studio.instrument 0).voices, (0, 3) ∈ voice.node.hosts := by
    decide +kernel
  obtain ⟨voice, hvoice, hreach⟩ := hvoice
  refine h 44100 throughOneGain [.advanceTo 0 1] 0 voice hvoice 0 3 hreach ?_ ?_ ?_
  · unfold Cut
    decide +kernel
  · unfold Dropped
    decide +kernel
  · unfold Cut
    decide +kernel

end Patchbay.Session
