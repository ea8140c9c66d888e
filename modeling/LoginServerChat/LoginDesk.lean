import LoginServerChat.LoginTalk

/-!
What a thread of `LoginServer` has in hand: the packet of the request, the packet of the response, and the
call of `SendPacket` that is to queue it.
-/

namespace LoginServerChat.LoginProgram

open NetPacket Packet Cipher NetState NetStep SlotStep SlotView SlotRun SlotRefs SlotPhase SlotLive SlotJoin
  PacketStep PacketRefs PacketShape RecvPackets Contents CallbackRun Login Runs
open SendStream (careful noteText Coded)

variable {m m' : Mem} {l l' : Local} {i k p q r : ℕ} {ch : Choice} {text : ℕ → List UInt8}

/-- All references to the packet are the thread's. -/
structure Mine (m : Mem) (l : Local) (q : ℕ) : Prop where
  has : 0 < share q l
  all : (m.packet q).refCount = share q l

/-- A response that is being written, with the fields `fs` to come. -/
structure Draft (m : Mem) (l : Local) (r : ℕ) (fs : List (List UInt8)) : Prop extends Mine m l r where
  plain : (m.packet r).isEncode = false
  read : (m.packet r).readPos = headerSize
  room : (m.packet r).writePos + fs.flatten.length ≤ defaultSize

def Call.packet : Call → Option ℕ
  | .sendPacket r => some r
  | .disconnect => none

/-- The packet of a call of `SendPacket` that has yet to encode it. -/
def unsent : ApiPc → Option ℕ
  | .enter c | .chkRel c | .chkID c => Call.packet c
  | .addRef r | .encode r => some r
  | _ => none

/-- What a call has yet to queue. -/
def callOwed (pk : ℕ → Packet) (text : ℕ → List UInt8) : Api → List (List UInt8)
  | .on _ _ (.enqueue r) => [text r]
  | .on _ _ q => ((unsent q).map fun r => held (pk r)).toList
  | .idle => []

/-- What `JobHandler` has yet to send, apart from a call that has been made: `p` is the request, `c` the
`Character`. -/
def jobOwed (pk : ℕ → Packet) (w : World) (c : Character) (p : ℕ) : JobPc → List (List UInt8)
  | .account => answer w (readRequest c (pk p)).1
  | .key => answer w (readKey c (pk p))
  | .query => answer w c
  | .redis => if 10 < (decimal (int64 c.accountNo)).length + 1 then [] else [(response c 1).flatten]
  | .alloc s => [(response c s).flatten]
  | .write r _ fs => [held (pk r) ++ fs.flatten]
  | .send r _ => [held (pk r)]
  | _ => []

/-- What the `Character` will be when `JobHandler` returns. -/
def becomes (pk : ℕ → Packet) (w : World) (c : Character) (p : ℕ) : JobPc → Character
  | .account => (lookUp w (readRequest c (pk p)).1).1
  | .key => (lookUp w (readKey c (pk p))).1
  | .query => (lookUp w c).1
  | _ => c

/-- The request that `JobHandler` has not taken up. -/
def unread (q : Packet) : JobPc → List (List UInt8)
  | .out | .type => [held q]
  | _ => []

/-- `JobHandler` has not read the whole request. -/
def JobPc.reads : JobPc → Bool
  | .out | .type | .account | .key => true
  | _ => false

/-- The points at which a call may be under way. -/
def JobPc.calls : JobPc → Bool
  | .free _ _ | .done => true
  | _ => false

/-- What is in the hands of a thread at a point of `JobHandler`, for the session `id` of slot `k`. -/
structure Papers (m : Mem) (l : Local) (k : ℕ) (id : SessionID) (p : ℕ) (j : JobPc) : Prop where
  request : j.reads = true → Mine m l p
  write : ∀ r s fs, j = .write r s fs → Draft m l r fs
  send : ∀ r s, j = .send r s → Draft m l r []
  call : ∀ i id' q, l.api = .on i id' q → j.calls = true ∧ i = k ∧
    ∀ r, unsent q = some r → id' = id ∧ Draft m l r []

/-- The call has nothing to queue. -/
def spent : ApiPc → Bool
  | .enqueue _ => false
  | q => (unsent q).isNone

def AtRecv (l : Local) (k p : ℕ) : Prop := l.pc = .work k (.recv (.onRecv p))

/-! ### What is in hand stays in hand -/

section Threads

variable {τ : Type*} [DecidableEq τ] [Fintype τ] {c : Config τ} {t u : τ}

/-- A packet that a thread has all references to is left alone by the others. -/
lemma mine_same (hK : PacketKept c q) (hm : Mine c.mem (c.loc t) q) (hut : u ≠ t)
    (hs : PSeen q c.mem (c.loc u) m' l') : m'.packet q = c.mem.packet q := by
  obtain ⟨i, hi, -, hstep⟩ := hs
  have hn : owners c q = share q (c.loc t) := by
    have h1 := hK.count
    have h2 := hm.all
    omega
  have hthreads : share q (c.loc t) ≤ ∑ v, share q (c.loc v) :=
    Finset.single_le_sum (f := fun v => share q (c.loc v)) (fun _ _ => Nat.zero_le _) (Finset.mem_univ t)
  rw [owners] at hn
  have hslots : ∑ k : Fin maxSlots, slotShare c.mem q k = 0 := by omega
  have hslot := Finset.sum_eq_zero_iff.mp hslots ⟨i, hi⟩ (Finset.mem_univ _)
  have hother : share q (c.loc u) = 0 :=
    eq_zero_of_sum_le (f := fun v => share q (c.loc v)) (t := t) (by omega) hut
  have hout := hK.out (by rw [owners]; have := hm.has; omega)
  have hdrop : drops q (c.loc u) = 0 := Finset.sum_eq_zero_iff.mp hout.2 u (Finset.mem_univ u)
  exact congrArg PView.q (pstep_idle hstep hother hslot hout.1 hdrop)

omit [DecidableEq τ] in
/-- It is not on its way to the pool. -/
lemma Mine.not_dropped (hK : PacketKept c q) (hm : Mine c.mem (c.loc t) q) (u : τ) : (c.loc u).drop ≠ some q := by
  intro hd
  have h1 : 0 < owners c q := by
    have h1 := hK.count
    have h2 := hm.all
    have h3 := hm.has
    omega
  have h2 := Finset.sum_eq_zero_iff.mp (hK.out h1).2 u (Finset.mem_univ u)
  rw [drops, if_pos hd] at h2
  cases h2

end Threads

lemma Mine.congr (h : Mine m l q) (hq : m'.packet q = m.packet q) (hs : share q l' = share q l) : Mine m' l' q :=
  ⟨hs ▸ h.has, by rw [hq, hs]; exact h.all⟩

lemma Draft.congr {fs : List (List UInt8)} (h : Draft m l r fs) (hq : m'.packet r = m.packet r)
    (hs : share r l' = share r l) : Draft m' l' r fs :=
  ⟨h.toMine.congr hq hs, by rw [hq]; exact h.plain, by rw [hq]; exact h.read, by rw [hq]; exact h.room⟩

lemma unsent_of_spent {a : ApiPc} (h : spent a = true) : unsent a = none := by
  cases a <;> first | exact Option.isNone_iff_eq_none.mp h | exact absurd h Bool.false_ne_true

section Owed

variable {pk pk' : ℕ → Packet} {text' : ℕ → List UInt8} {a : ApiPc} (i : ℕ) (id : SessionID)

lemma callOwed_eq (h : ∀ r, a ≠ .enqueue r) :
    callOwed pk text (.on i id a) = ((unsent a).map fun r => held (pk r)).toList := by
  cases a <;> first | rfl | exact absurd rfl (h _)

lemma callOwed_unsent (h : unsent a = some r) : callOwed pk text (.on i id a) = [held (pk r)] := by
  have hq : ∀ r, a ≠ .enqueue r := fun q hq => by
    rw [hq] at h
    cases h
  rw [callOwed_eq i id hq, h]
  rfl

lemma callOwed_spent (h : spent a = true) : callOwed pk text (.on i id a) = [] := by
  have hq : ∀ r, a ≠ .enqueue r := fun q hq => by
    rw [hq] at h
    cases h
  rw [callOwed_eq i id hq, unsent_of_spent h]
  rfl

omit i id in
/-- What the call of another thread is to queue stays as it is. -/
lemma callOwed_congr {z : Api} (hu : ∀ i id q r, z = .on i id q → unsent q = some r → pk' r = pk r)
    (ht : ∀ i id r, z = .on i id (.enqueue r) → text' r = text r) : callOwed pk' text' z = callOwed pk text z := by
  cases z with
  | idle => rfl
  | on i id q =>
    by_cases hq : ∃ r, q = .enqueue r
    · obtain ⟨r, rfl⟩ := hq
      exact congrArg (fun x => [x]) (ht i id r rfl)
    · rw [callOwed_eq i id (not_exists.mp hq), callOwed_eq i id (not_exists.mp hq)]
      cases hr : unsent q with
      | none => rfl
      | some r => exact congrArg (fun x => [held x]) (hu i id q r rfl hr)

end Owed

section Papers

variable {id : SessionID} {j : JobPc} (hP : Papers m l k id p j) (hq : ∀ q, Mine m l q → m'.packet q = m.packet q)
include hP hq

lemma Papers.congr (hs : ∀ q, share q l' = share q l) (ha : l'.api = l.api) : Papers m' l' k id p j := by
  have hD : ∀ r fs, Draft m l r fs → Draft m' l' r fs := fun r fs h => h.congr (hq r h.toMine) (hs r)
  refine ⟨fun hr => (hP.request hr).congr (hq p (hP.request hr)) (hs p),
    fun r s fs hj => hD r fs (hP.write r s fs hj),
    fun r s hj => hD r [] (hP.send r s hj), fun i id' q hl => ?_⟩
  obtain ⟨hj, hi, hu⟩ := hP.call i id' q (ha ▸ hl)
  exact ⟨hj, hi, fun r hr => ⟨(hu r hr).1, hD r [] (hu r hr).2⟩⟩

lemma Papers.owed (w : World) (c : Character) : jobOwed m'.packet w c p j = jobOwed m.packet w c p j ∧
    becomes m'.packet w c p j = becomes m.packet w c p j ∧ unread (m'.packet p) j = unread (m.packet p) j := by
  cases j
  case out | type =>
    refine ⟨rfl, rfl, ?_⟩
    rw [unread, unread, hq p (hP.request rfl)]
  case account | key =>
    have hp := hq p (hP.request rfl)
    exact ⟨by rw [jobOwed, jobOwed, hp], by rw [becomes, becomes, hp], rfl⟩
  case write r s fs => exact ⟨by rw [jobOwed, jobOwed, hq r (hP.write r s fs rfl).toMine], rfl, rfl⟩
  case send r s => exact ⟨by rw [jobOwed, jobOwed, hq r (hP.send r s rfl).toMine], rfl, rfl⟩
  all_goals exact ⟨rfl, rfl, rfl⟩

lemma Papers.called {text' : ℕ → List UInt8} (ht : ∀ i id r, l.api = .on i id (.enqueue r) → text' r = text r) :
    callOwed m'.packet text' l.api = callOwed m.packet text l.api :=
  callOwed_congr (fun i id q r ha hr => hq r ((hP.call i id q ha).2.2 r hr).2.toMine) ht

end Papers

/-- While the request is being read there is nothing else. -/
lemma Papers.of_reads {id : SessionID} {j : JobPc} (hj : j.reads = true) (ha : l.api = .idle) (h : Mine m l p) :
    Papers m l k id p j := by
  refine ⟨fun _ => h, fun r s fs he => ?_, fun r s he => ?_, fun i id' q hq => ?_⟩
  · rw [he] at hj
    cases hj
  · rw [he] at hj
    cases hj
  · cases ha.symm.trans hq

section Calls

variable {id id' : SessionID} {j : JobPc} {a : ApiPc} {o : SendStream.Outgoing}

lemma Papers.of_calls (hj : j.calls = true)
    (h : ∀ i id' q, l.api = .on i id' q → i = k ∧ ∀ r, unsent q = some r → id' = id ∧ Draft m l r []) :
    Papers m l k id p j := by
  refine ⟨fun hr => ?_, fun r s fs hw => ?_, fun r s hw => ?_, fun i id' q ha => ⟨hj, h i id' q ha⟩⟩
  · cases j <;> first | exact absurd hj Bool.false_ne_true | exact absurd hr Bool.false_ne_true
  · rw [hw] at hj
    cases hj
  · rw [hw] at hj
    cases hj

lemma owed_calls (hj : j.calls = true) (pk : ℕ → Packet) (w : World) (c : Character) :
    jobOwed pk w c p j = [] ∧ becomes pk w c p j = c ∧ unread (pk p) j = [] := by
  cases j <;> first | exact ⟨rfl, rfl, rfl⟩ | exact absurd hj Bool.false_ne_true

/-- A step of a call leaves what it owes the same, with what it has queued. -/
structure CallStep (m : Mem) (l : Local) (text : ℕ → List UInt8) (k : ℕ) (id : SessionID) (p : ℕ) (j : JobPc)
    (ch : Choice) (o : SendStream.Outgoing) (m' : Mem) (l' : Local) : Prop where
  pc : l'.pc = l.pc
  papers : Papers m' l' k id p j
  owed : (o.note text m.packet (lview l k) (lview l' k)).posted ++
    callOwed m'.packet (noteText text m l.api ch) l'.api = o.posted ++ callOwed m.packet text l.api

/-- A call that has nothing to queue goes on without. -/
lemma apiStep_spent (ha : l.api = .on k id' a) (hs : spent a = true) (h : apiStep m l k id' a ch = some (m', l')) :
    l'.pc = l.pc ∧ ∀ i id q, l'.api = .on i id q → i = k ∧ spent q = true := by
  revert h
  fun_cases apiStep m l k id' a ch <;>
    simp only [Option.some.injEq, Prod.mk.injEq, reduceCtorEq, false_implies, and_imp]
  case case5 | case7 | case8 | case10 => cases hs
  all_goals
    rintro rfl rfl
    refine ⟨rfl, fun i id q hq => ?_⟩
    cases hq
  case case1.refl c | case3.refl c _ =>
    cases c
    · cases hs
    · exact ⟨rfl, rfl⟩
  all_goals exact ⟨rfl, rfl⟩

lemma CallStep.of_spent (ha : l.api = .on k id' a) (hs : spent a = true) (hP : Papers m l k id p j)
    (h : apiStep m l k id' a ch = some (m', l')) : CallStep m l text k id p j ch o m' l' := by
  obtain ⟨hpc, hsp⟩ := apiStep_spent ha hs h
  refine ⟨hpc, .of_calls (hP.call _ _ _ ha).1 fun i id'' q hq => ⟨(hsp i id'' q hq).1, fun r hr => ?_⟩, ?_⟩
  · cases (unsent_of_spent (hsp i id'' q hq).2).symm.trans hr
  · have hnote : o.note text m.packet (lview l k) (lview l' k) = o := by
      unfold lview
      rw [hpc]
      refine SendStream.note_call fun id'' r he => ?_
      rw [ha, apiRole, if_pos rfl] at he
      obtain ⟨-, rfl⟩ := Prod.mk.inj (Option.some.inj he)
      cases hs
    rw [hnote, ha, callOwed_spent k id' hs]
    cases hl' : l'.api with
    | idle => rfl
    | on i id'' q => rw [callOwed_spent i id'' (hsp i id'' q hl').2]

/-- A call of `SendPacket` that has the packet yet to encode. -/
lemma CallStep.goes {a' : ApiPc} (ha : l.api = .on k id' a) (hr : unsent a = some r) (hr' : unsent a' = some r)
    (hl : l' = Local.call l (.on k id' a')) (hpk : held (m'.packet r) = held (m.packet r))
    (hid : id' = id) (hD : Draft m' l' r []) (hj : j.calls = true)
    (ht : noteText text m l.api ch = text) : CallStep m l text k id p j ch o m' l' := by
  subst hl
  refine ⟨rfl, .of_calls hj fun i id'' q hq => ?_, ?_⟩
  · cases hq
    exact ⟨rfl, fun r₁ hr₁ => by rw [hr'] at hr₁; cases hr₁; exact ⟨hid, hD⟩⟩
  · have hnote : o.note text m.packet (lview l k) (lview (Local.call l (.on k id' a')) k) = o := by
      refine SendStream.note_call fun id'' q he => ?_
      rw [ha, apiRole, if_pos rfl] at he
      obtain ⟨-, rfl⟩ := Prod.mk.inj (Option.some.inj he)
      cases hr
    rw [hnote, ht, ha, callOwed_unsent k id' hr, Local.call, callOwed_unsent k id' hr', hpk]

/-- **A step of a call.** -/
lemma call_step (text : ℕ → List UInt8) (o : SendStream.Outgoing) (ha : l.api = .on k id' a)
    (hP : Papers m l k id p j) (hflag : (m.sess k).releaseFlag ≠ 1)
    (hid : (m.sess k).sessionID = id) (hsh' : ∀ r, Shaped (m.packet r))
    (h : apiStep m l k id' a ch = some (m', l')) : CallStep m l text k id p j ch o m' l' := by
  by_cases hs : spent a = true
  · exact .of_spent ha hs hP h
  obtain ⟨hj, -, hU⟩ := hP.call _ _ _ ha
  -- only `Encode` writes down a text
  have ht : ∀ ch, (∀ r, a ≠ .encode r) → noteText text m l.api ch = text := by
    intro ch hne
    rw [ha]
    cases a <;> first | rfl | exact absurd rfl (hne _)
  have hsh : ∀ {r a'}, a = .addRef r ∨ (∃ c, a = .enter c ∨ a = .chkRel c ∨ a = .chkID c) →
      Api.share r (.on k id' a') = 0 → share r (Local.call l (.on k id' a')) = share r l := by
    intro r a' hcase h0
    refine share_call ?_
    rw [h0, ha]
    obtain rfl | ⟨c, rfl | rfl | rfl⟩ := hcase <;> rfl
  cases a
  case enter c =>
    cases ch <;> simp only [apiStep, Option.some.injEq, Prod.mk.injEq, reduceCtorEq] at h
    obtain ⟨rfl, rfl⟩ := h
    cases c
    case disconnect => exact absurd rfl hs
    case sendPacket r =>
      exact .goes ha rfl rfl rfl rfl (hU r rfl).1 ((hU r rfl).2.congr rfl (hsh (.inr ⟨_, .inl rfl⟩) rfl)) hj
        (ht _ fun _ h => by cases h)
  case chkRel c =>
    cases ch <;> simp only [apiStep, if_neg hflag, Option.some.injEq, Prod.mk.injEq, reduceCtorEq] at h
    obtain ⟨rfl, rfl⟩ := h
    cases c
    case disconnect => exact absurd rfl hs
    case sendPacket r =>
      exact .goes ha rfl rfl rfl rfl (hU r rfl).1 ((hU r rfl).2.congr rfl (hsh (.inr ⟨_, .inr (.inl rfl)⟩) rfl)) hj
        (ht _ fun _ h => by cases h)
  case chkID c =>
    cases c
    case disconnect => exact absurd rfl hs
    case sendPacket r =>
      obtain ⟨hid', hD⟩ := hU r rfl
      have hsame : ¬(m.sess k).sessionID ≠ id' := fun h => h (hid.trans hid'.symm)
      cases ch <;> simp only [apiStep, if_neg hsame, Option.some.injEq, Prod.mk.injEq, reduceCtorEq] at h
      obtain ⟨rfl, rfl⟩ := h
      exact .goes ha rfl rfl rfl rfl hid' (hD.congr rfl (hsh (.inr ⟨_, .inr (.inr rfl)⟩) rfl)) hj
        (ht _ fun _ h => by cases h)
  case addRef r =>
    obtain ⟨hid', hD⟩ := hU r rfl
    cases ch <;> simp only [apiStep, Option.some.injEq, Prod.mk.injEq, reduceCtorEq] at h
    obtain ⟨rfl, rfl⟩ := h
    have hpk : (m.onPacket r Packet.addRefCount).packet r = (m.packet r).addRefCount := Function.update_self _ _ _
    have hshare : share r (Local.call l (.on k id' (.encode r))) = share r l + 1 := by
      simp only [share, Local.call, ha, Api.share, if_true]
      omega
    refine .goes ha rfl rfl rfl (by rw [hpk]; rfl) hid' ⟨⟨by omega, ?_⟩, ?_, ?_, ?_⟩ hj (ht _ fun _ h => by cases h)
    · rw [hpk, hshare, Packet.addRefCount, hD.all]
      rfl
    · rw [hpk]
      exact hD.plain
    · rw [hpk]
      exact hD.read
    · rw [hpk]
      exact hD.room
  case encode r =>
    obtain ⟨hid', hD⟩ := hU r rfl
    cases ch <;> simp only [apiStep, reduceCtorEq] at h
    rename_i key
    obtain ⟨q, hq, -⟩ := (hsh' r).encode key
    simp only [hq, Option.some.injEq, Prod.mk.injEq] at h
    obtain ⟨rfl, rfl⟩ := h
    refine ⟨rfl, .of_calls hj fun i id'' q hq => ?_, ?_⟩
    · cases hq
      exact ⟨rfl, fun r hr => by cases hr⟩
    · have hnote : o.note text m.packet (lview l k) (lview (Local.call l (.on k id' (.enqueue r))) k) = o := by
        refine SendStream.note_call fun id'' q he => ?_
        rw [ha, apiRole, if_pos rfl] at he
        cases he
      have htext : noteText text m l.api (.key key) r = held (m.packet r) := by
        rw [ha]
        simp only [noteText, hD.plain, Bool.false_eq_true, if_false, Function.update_self]
      rw [hnote, ha, callOwed_unsent k id' (r := r) rfl, Local.call, callOwed, ← ha, htext]
  case enqueue r =>
    cases ch <;> simp only [apiStep, Option.some.injEq, Prod.mk.injEq, reduceCtorEq] at h
    obtain ⟨rfl, rfl⟩ := h
    refine ⟨rfl, .of_calls hj fun i id'' q hq => ?_, ?_⟩
    · cases hq
      exact ⟨rfl, fun r hr => by cases hr⟩
    · simp [SendStream.Outgoing.note, lview, apiRole, ha, Local.call, callOwed, unsent]
  all_goals exact absurd rfl hs

end Calls

end LoginServerChat.LoginProgram
