import LoginServerChat.LoginReplies

/-!
Whole runs of `LoginServer`. Whatever the interleaving of its threads, what the client of a session receives
is what `JobHandler` says to the session's requests, one after another.
-/

namespace LoginServerChat.LoginProgram

open NetPacket Packet Cipher NetState NetStep SlotStep SlotView SlotRun SlotRefs SlotPhase Contents CallbackStage
  Callbacks CallbackRun CallbackCode CallbackProtocol StreamOrder Login Runs
open SendStream (Outgoing)
open Frames (parse next)

variable {τ : Type*} [DecidableEq τ] [Fintype τ] {b : Boot} {a : τ} {w : τ → Bool} {sid : ℕ → SessionID}
  {B : Blocks} {P P' : Program τ} {t : τ} {k : ℕ} {c₀ : Character}

/-- **A step of the program.** -/
lemma Dialog.step {y : Input τ} (hD : Dialog b a w sid P) (h : pstep P y = some P') : Dialog b a w sid P' := by
  cases y with
  | net y =>
    simp only [pstep, Option.ite_none_right_eq_some] at h
    cases y with
    | run t ch => exact hD.plain_run h.1 h.2
    | complete io n d => exact hD.complete h.2
    | give t u p => exact absurd h.1 Bool.false_ne_true
  | code t q => exact hD.code h
  | job t q v b₀ b₁ =>
    simp only [pstep] at h
    split at h
    case h_1 hpc hx => exact hD.job_step hpc hx h
    case h_2 hx =>
      obtain ⟨st, hS⟩ := hD.sound
      exact absurd hx (placed_missing (hS.placed t))
    case h_3 => cases h

/-- Of what was handed over at most the last request has not been taken up, and between two requests
everything has been said. -/
lemma Dialog.stands (hD : Dialog b a w sid P) (hT : SlotTalk P k c₀) : ∃ new owed c, Stands P k c₀ new owed c ∧
    new.length ≤ 1 ∧ ((∀ t p, ¬AtRecv (P.loc t) k p) → new = [] ∧ owed = []) := by
  by_cases hr : ∃ t p, AtRecv (P.loc t) k p
  · obtain ⟨t, p, hat⟩ := hr
    obtain ⟨st, hS⟩ := hD.sound
    obtain ⟨x, hx⟩ := entry_found hS (fun _ _ _ hc => callback_current hD.net hc) (callback_atRecv hat)
      (fun h => by cases h) fun h => by cases h
    refine ⟨_, _, _, hT.receiving t p hat x ((lookup_iff hS.keys).mp hx), ?_, fun hno => absurd hat (hno t p)⟩
    cases P.job t <;> simp [unread]
  · have hno : ∀ t p, ¬AtRecv (P.loc t) k p := fun t p hat => hr ⟨t, p, hat⟩
    obtain ⟨c, hc⟩ := hT.idle hno
    exact ⟨[], [], c, hc, Nat.zero_le _, fun _ => ⟨rfl, rfl⟩⟩

/-- How a session of slot `k` has been served, when its `Character` began as `c`. The bytes that `WSASend` was
given are whole frames, and their payloads are the first of what `JobHandler` says, called with the session's
requests one after another. These requests are the packets handed over, but possibly the last; and so they are
the first of those in the client's stream. Between two requests, with nothing left to send, everything has been
answered and every answer written. -/
structure Served (P : Program τ) (k : ℕ) (c : Character) : Prop where
  whole : (parse (P.out k).wire).rest = []
  told : (parse (P.out k).wire).frames.map payload <+: talk c (P.turns k)
  taken : ∃ new : List (List UInt8), new.length ≤ 1 ∧
    (P.turns k).map (fun t => held t.packet) ++ new = (P.streams k).handled
  heard : next (parse (P.streams k).arrived).rest ≠ .refuse →
    (P.turns k).map (fun t => held t.packet) <+: (parse (P.streams k).arrived).frames.map payload
  all : (∀ t p, ¬AtRecv (P.loc t) k p) → (P.mem.hist k).phase = .live → (P.mem.sess k).sendQ = [] →
    (P.mem.hist k).gath = [] → (P.turns k).map (fun t => held t.packet) = (P.streams k).handled ∧
      (parse (P.out k).wire).frames.map payload = talk c (P.turns k)

end LoginServerChat.LoginProgram
