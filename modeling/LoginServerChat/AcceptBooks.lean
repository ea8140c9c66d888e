import LoginServerChat.SlotPhase

/-!
The books of the server: the free stack, the counters that `AcceptThread` and `ReleaseSession`
share, the ids that have been issued, and of each slot its id and the number of its accept.

`AStep` lists what a step can do to the books. Of a thread it shows where it stands in the
order in which they are kept: `AcceptThread` looks at `_nowSession`, counts the client, numbers
it, pops a slot, names it and announces it; `ReleaseSession` pushes the slot and then counts.
-/

namespace LoginServerChat.AcceptBooks

open NetPacket NetState NetStep

structure Books where
  freeStack : List ℕ
  nowSession : ℤ
  maxUser : ℕ
  sessionCnt : BitVec 64
  serial : ℕ
  issued : List SessionID
  ids : ℕ → SessionID
  sers : ℕ → ℕ

def books (m : Mem) : Books where
  freeStack := m.freeStack
  nowSession := m.nowSession
  maxUser := m.maxUser
  sessionCnt := m.sessionCnt
  serial := m.serial
  issued := m.issued
  ids k := (m.sess k).sessionID
  sers k := (m.hist k).ser

/-- Where a thread stands. The accept thread is `idle` also in a `ReleaseSession` of its own,
and `returned` is between `Push` and the decrement there. -/
inductive Stand
  | none
  | idle
  | granted
  | counted
  | numbered
  | naming (i : ℕ)
  | named (i : ℕ)
  | stopped
  | returned (accept : Bool)
  deriving DecidableEq

/-- A thread that is not at the books; `accept` says whether it is the accept thread. -/
def away (accept : Bool) : Stand := if accept then .idle else .none

def InitPc.stand (i : ℕ) : InitPc → Stand
  | .ioCount | .socket | .relSocket | .sessionID => .naming i
  | _ => .named i

def stand (l : Local) : Stand :=
  match l.pc with
  | .acc (.request _) | .acc (.incNow _) => .granted
  | .acc (.count _) => .counted
  | .acc (.pop _) => .numbered
  | .acc _ => .idle
  | .accOn i (.init _ p) => InitPc.stand i p
  | .accOn i (.assoc _) | .accOn i (.join _) => .named i
  | .accOn _ .stop => .stopped
  | .accOn _ _ => .idle
  | .rel _ .decNow a => .returned a
  | .rel _ _ a => away a
  | _ => .none

/-- A step on the books. -/
inductive AStep : Books → Stand → Books → Stand → Prop
  | stay {B s} : AStep B s B s
  | grant {B} (hn : B.nowSession ≠ B.maxUser) : AStep B .idle B .granted
  | refuse {B} : AStep B .granted B .idle
  | incNow {B} : AStep B .granted { B with nowSession := B.nowSession + 1 } .counted
  | count {B} : AStep B .counted { B with sessionCnt := nextCnt B.sessionCnt } .numbered
  | pop {B} (i : ℕ) (st : List ℕ) (hst : B.freeStack = i :: st) : AStep B .numbered
      { B with freeStack := st, serial := B.serial + 1
               sers := Function.update B.sers i (B.serial + 1) } (.naming i)
  | name {B i} : AStep B (.naming i)
      { B with ids := Function.update B.ids i (makeID B.sessionCnt i) } (.named i)
  | stop {B i} : AStep B (.named i) B .stopped
  | join {B i} : AStep B (.named i) { B with issued := B.ids i :: B.issued } .idle
  | push {B a} (i : ℕ) : AStep B (away a)
      { B with freeStack := slotOf (B.ids i) :: B.freeStack } (.returned a)
  | decNow {B a} : AStep B (.returned a) { B with nowSession := B.nowSession - 1 } (away a)

/-! ### Every step of the server is one on the books -/

variable {m m' : Mem} {l l' : Local} {i : ℕ} {ch : Choice}

lemma books_sess (m : Mem) (i : ℕ) (f : Session → Session) : books (m.onSess i f) =
    { books m with ids := Function.update (books m).ids i (f (m.sess i)).sessionID } := by
  simp only [books, Mem.onSess, Books.mk.injEq, true_and, and_true]
  funext k
  by_cases hk : k = i
  · subst hk
    rw [Function.update_self, Function.update_self]
  · rw [Function.update_of_ne hk, Function.update_of_ne hk]

lemma books_hist (m : Mem) (i : ℕ) (f : Hist → Hist) : books (m.onHist i f) =
    { books m with sers := Function.update (books m).sers i (f (m.hist i)).ser } := by
  simp only [books, Mem.onHist, Books.mk.injEq, true_and]
  funext k
  by_cases hk : k = i
  · subst hk
    rw [Function.update_self, Function.update_self]
  · rw [Function.update_of_ne hk, Function.update_of_ne hk]

lemma books_onSess {f : Session → Session} (h : (f (m.sess i)).sessionID = (m.sess i).sessionID) :
    books (m.onSess i f) = books m := by
  rw [books_sess, h]
  exact congrArg (fun x => { books m with ids := x }) (Function.update_eq_self i (books m).ids)

lemma books_onHist {f : Hist → Hist} (h : (f (m.hist i)).ser = (m.hist i).ser) :
    books (m.onHist i f) = books m := by
  rw [books_hist, h]
  exact congrArg (fun x => { books m with sers := x }) (Function.update_eq_self i (books m).sers)

lemma books_onPacket {p : ℕ} {f : Packet → Packet} : books (m.onPacket p f) = books m := rfl

lemma books_postIo {send pended : Bool} {s : Sock} {len : ℕ} :
    books (m.postIo i send s len pended) = books m := rfl

lemma stand_of_pc (h : l'.pc = l.pc) : stand l' = stand l := by
  unfold stand
  rw [h]

lemma stand_relBack (a : Bool) : stand (Local.goto l (relBack a)) = away a := by
  cases a <;> rfl

lemma astep_away {B B' : Books} {s s' : Stand} (hb : B' = B) (hs : s' = s) : AStep B s B' s' := by
  rw [hb, hs]
  exact .stay

lemma allocPacket_books {p : ℕ} (h : allocPacket m l p = some (m', l')) :
    books m' = books m ∧ l'.pc = l.pc := by
  unfold allocPacket at h
  split at h
  · obtain ⟨rfl, rfl⟩ := Prod.mk.inj (Option.some.inj h)
    exact ⟨rfl, rfl⟩
  · exact absurd h.symm (Option.some_ne_none _)

lemma freePacket_books {p : ℕ} (h : freePacket m l p = (m', l')) :
    books m' = books m ∧ l'.pc = l.pc := by
  unfold freePacket at h
  obtain ⟨rfl, rfl⟩ := Prod.mk.inj h
  refine ⟨rfl, ?_⟩
  split <;> rfl

lemma contentsStep_books (h : contentsStep m l ch = some (m', l')) :
    books m' = books m ∧ l'.pc = l.pc := by
  revert h
  fun_cases contentsStep m l ch <;>
    try simp only [Option.some.injEq, Prod.mk.injEq, reduceCtorEq, false_implies, and_imp]
  case case1 => exact allocPacket_books
  case case2 => exact freePacket_books
  all_goals
    rintro rfl rfl
    exact ⟨rfl, rfl⟩

lemma apiStep_books {id : SessionID} {p : ApiPc} (h : apiStep m l i id p ch = some (m', l')) :
    books m' = books m ∧ l'.pc = l.pc := by
  revert h
  fun_cases apiStep m l i id p ch <;>
    simp only [Option.some.injEq, Prod.mk.injEq, reduceCtorEq, false_implies, and_imp]
  all_goals
    rintro rfl rfl
    refine ⟨?_, rfl⟩
    first
      | rfl
      | exact books_onSess rfl
      | exact books_onHist rfl
      | exact (books_onHist rfl).trans (books_onSess rfl)

lemma sendStep_books {p : SendPc} (h : sendStep m l i p ch = some (m', l')) :
    books m' = books m ∧ ∃ q, l'.pc = .work i q := by
  revert h
  fun_cases sendStep m l i p ch <;>
    simp only [Option.some.injEq, Prod.mk.injEq, reduceCtorEq, false_implies, and_imp]
  all_goals
    rintro rfl rfl
    refine ⟨?_, _, rfl⟩
    first
      | rfl
      | exact books_onSess rfl
      | exact books_onHist rfl
      | exact books_postIo.trans (books_onHist rfl)
      | exact (books_onHist rfl).trans (books_onSess rfl)

lemma postStep_books {p : PostPc} (h : postStep m l i p ch = some (m', l')) :
    books m' = books m ∧ ∃ q, l'.pc = .work i q := by
  revert h
  fun_cases postStep m l i p ch <;>
    simp only [Option.some.injEq, Prod.mk.injEq, reduceCtorEq, false_implies, and_imp]
  all_goals
    rintro rfl rfl
    refine ⟨?_, _, rfl⟩
    first
      | rfl
      | exact books_onSess rfl

lemma recvStep_books {p : RecvPc} (hp : l.pc = .work i (.recv p))
    (h : recvStep m l i p ch = some (m', l')) : books m' = books m ∧ ∃ q, l'.pc = .work i q := by
  revert h
  fun_cases recvStep m l i p ch <;>
    try simp only [Option.some.injEq, Prod.mk.injEq, reduceCtorEq, false_implies, and_imp]
  case case9 =>
    intro h
    obtain ⟨hb, hl⟩ := allocPacket_books h
    exact ⟨hb, _, hl⟩
  case case16 =>
    intro h
    obtain ⟨hb, hl⟩ := contentsStep_books h
    exact ⟨hb, _, hl.trans hp⟩
  case case17 | case18 =>
    intro h
    obtain ⟨hb, hl⟩ := freePacket_books h
    exact ⟨hb, _, hl⟩
  all_goals
    rintro rfl rfl
    refine ⟨?_, _, rfl⟩
    first
      | rfl
      | exact books_onSess rfl
      | exact books_onPacket.trans (books_onSess rfl)

lemma workStep_books {p : WorkPc} (hp : l.pc = .work i p)
    (h : workStep m l i p ch = some (m', l')) : books m' = books m ∧ stand l' = .none := by
  have hwork : (∃ q, l'.pc = .work i q) → stand l' = .none := by
    rintro ⟨q, hq⟩
    unfold stand
    rw [hq]
  revert h
  fun_cases workStep m l i p ch <;>
    try simp only [Option.some.injEq, Prod.mk.injEq, reduceCtorEq, false_implies, and_imp]
  case case1 j _ =>
    rintro rfl rfl
    refine ⟨rfl, ?_⟩
    cases j <;> rfl
  case case2 j _ =>
    rintro rfl rfl
    refine ⟨?_, rfl⟩
    cases j <;> first | rfl | exact books_onHist rfl
  case case5 =>
    intro h
    obtain ⟨hb, hl⟩ := freePacket_books h
    exact ⟨hb.trans (books_onHist rfl), hwork ⟨_, hl⟩⟩
  case case8 => exact fun h => (sendStep_books h).imp_right hwork
  case case9 => exact fun h => (recvStep_books hp h).imp_right hwork
  case case10 => exact fun h => (postStep_books h).imp_right hwork
  all_goals
    rintro rfl rfl
    refine ⟨?_, rfl⟩
    first
      | rfl
      | exact books_onSess rfl

lemma relStep_books {p : RelPc} {a : Bool} (hp : l.pc = .rel i p a)
    (h : relStep m l i a p ch = some (m', l')) :
    AStep (books m) (stand l) (books m') (stand l') := by
  have hs : p ≠ .decNow → stand l = away a := by
    intro hd
    unfold stand
    rw [hp]
    cases p <;> first | rfl | exact absurd rfl hd
  revert h
  fun_cases relStep m l i a p ch <;>
    try simp only [Option.some.injEq, Prod.mk.injEq, reduceCtorEq, false_implies, and_imp]
  case case1 =>
    rintro rfl rfl
    exact astep_away ((books_onHist rfl).trans (books_onSess rfl)) (hs RelPc.noConfusion).symm
  case case2 =>
    rintro rfl rfl
    exact astep_away rfl ((stand_relBack a).trans (hs RelPc.noConfusion).symm)
  case case4 =>
    rintro rfl rfl
    exact astep_away (books_onSess rfl) (hs RelPc.noConfusion).symm
  case case5 | case7 =>
    intro h
    obtain ⟨hb, hl⟩ := freePacket_books h
    refine astep_away (hb.trans (books_onHist rfl)) ((stand_of_pc hl).trans ?_)
    exact (hs RelPc.noConfusion).symm
  case case12 =>
    intro h
    obtain ⟨hb, hl⟩ := contentsStep_books h
    exact astep_away hb (stand_of_pc hl)
  case case13 =>
    rintro rfl rfl
    rw [hs RelPc.noConfusion, books_onHist rfl]
    exact .push i
  case case14 =>
    rintro rfl rfl
    rw [stand_relBack, show stand l = .returned a by unfold stand; rw [hp]]
    exact .decNow
  all_goals
    rintro rfl rfl
    exact astep_away rfl (hs RelPc.noConfusion).symm

lemma initStep_books {s : Sock} {p : InitPc} (hp : l.pc = .accOn i (.init s p)) :
    AStep (books m) (stand l) (books (initStep m l i s p).1) (stand (initStep m l i s p).2) := by
  have hs : stand l = InitPc.stand i p := by
    unfold stand
    rw [hp]
  rw [hs]
  cases p
  case sessionID =>
    rw [show books (initStep m l i s .sessionID).1 = _ from books_sess m i _]
    exact .name
  all_goals
    refine astep_away ?_ rfl
    first
      | exact books_onSess rfl
      | exact (books_onHist rfl).trans (books_onSess rfl)

lemma accOnStep_books {p : AccOn} (hp : l.pc = .accOn i p)
    (h : accOnStep m l i p ch = some (m', l')) :
    AStep (books m) (stand l) (books m') (stand l') := by
  have hs : stand l = stand { l with pc := .accOn i p } := by rw [← hp]
  revert h
  fun_cases accOnStep m l i p ch <;>
    try simp only [Option.some.injEq, Prod.mk.injEq, reduceCtorEq, false_implies, and_imp]
  case case1 s p =>
    intro h
    have := initStep_books (m := m) hp
    rwa [h] at this
  case case2 =>
    rintro rfl rfl
    exact astep_away rfl hs.symm
  case case3 =>
    rintro rfl rfl
    rw [hs]
    exact .stop
  case case4 =>
    rintro rfl rfl
    rw [hs, books_onHist rfl]
    exact .join
  case case6 =>
    intro h
    obtain ⟨hb, hl⟩ := contentsStep_books h
    exact astep_away hb (stand_of_pc hl)
  all_goals
    rintro rfl rfl
    refine astep_away ?_ hs.symm
    first
      | rfl
      | exact books_onSess rfl

lemma acceptStep_books {p : AccPc} (hp : l.pc = .acc p)
    (h : acceptStep m l p ch = some (m', l')) :
    AStep (books m) (stand l) (books m') (stand l') := by
  have hs : stand l = stand { l with pc := .acc p } := by rw [← hp]
  revert h
  fun_cases acceptStep m l p ch <;>
    try simp only [Option.some.injEq, Prod.mk.injEq, reduceCtorEq, false_implies, and_imp]
  case case5 hn =>
    rintro rfl rfl
    rw [hs]
    exact .grant hn
  case case7 =>
    rintro rfl rfl
    rw [hs]
    exact .refuse
  case case8 =>
    intro h
    obtain ⟨hb, hl⟩ := contentsStep_books h
    exact astep_away hb (stand_of_pc hl)
  case case10 =>
    rintro rfl rfl
    rw [hs]
    exact .incNow
  case case11 =>
    rintro rfl rfl
    rw [hs]
    exact .count
  case case12 =>
    rintro rfl rfl
    exact .stay
  case case13 i st hst _ =>
    rintro rfl rfl
    rw [hs, books_hist]
    exact .pop i st hst
  all_goals
    rintro rfl rfl
    exact astep_away rfl hs.symm

/-- **A step of the server on the books.** -/
theorem lstep_books (h : lstep m l ch = some (m', l')) :
    AStep (books m) (stand l) (books m') (stand l') := by
  unfold lstep at h
  split at h
  case h_1 p _ =>
    split at h
    · obtain ⟨rfl, rfl⟩ := Prod.mk.inj (Option.some.inj h)
      exact .stay
    · exact absurd h.symm (Option.some_ne_none _)
  case h_2 =>
    split at h
    case h_1 =>
      obtain ⟨hb, hl⟩ := apiStep_books h
      exact astep_away hb (stand_of_pc hl)
    case h_2 =>
      split at h
      case h_1 =>
        obtain ⟨hb, hl⟩ := contentsStep_books h
        exact astep_away hb (stand_of_pc hl)
      case h_2 hp => exact acceptStep_books hp h
      case h_3 hp => exact accOnStep_books hp h
      case h_4 hp =>
        split at h
        · obtain ⟨rfl, rfl⟩ := Prod.mk.inj (Option.some.inj h)
          refine astep_away rfl ?_
          unfold stand
          rw [hp]
          rfl
        · exact absurd h.symm (Option.some_ne_none _)
      case h_5 hp =>
        obtain ⟨hb, hl⟩ := workStep_books hp h
        refine astep_away hb (hl.trans ?_)
        unfold stand
        rw [hp]
      case h_6 hp => exact relStep_books hp h

/-! ### The server projects to its books -/

variable {τ : Type*} [DecidableEq τ] {c c' : Config τ}

/-- Where the threads stand. -/
def stands (c : Config τ) (t : τ) : Stand := stand (c.loc t)

/-- **A step of the machine on the books** is that of one thread. -/
theorem step_books (a : τ) {x : Act τ} (h : step c x = some c') :
    ∃ t s, AStep (books c.mem) (stands c t) (books c'.mem) s ∧
      stands c' = Function.update (stands c) t s := by
  have hstay : books c'.mem = books c.mem → stands c' = stands c →
      ∃ t s, AStep (books c.mem) (stands c t) (books c'.mem) s ∧
        stands c' = Function.update (stands c) t s := by
    intro hb hs
    refine ⟨a, stands c a, ?_, ?_⟩
    · rw [hb]
      exact .stay
    · rw [hs, Function.update_eq_self]
  cases x with
  | run t ch =>
    simp only [step, Option.map_eq_some_iff] at h
    obtain ⟨⟨m', l'⟩, h, rfl⟩ := h
    refine ⟨t, stand l', lstep_books h, ?_⟩
    funext u
    by_cases hu : u = t
    · subst hu
      simp only [stands, Function.update_self]
    · simp only [stands, Function.update_of_ne hu]
  | complete io n d =>
    simp only [step] at h
    split at h <;> simp only [Option.some.injEq, reduceCtorEq] at h
    subst h
    exact hstay rfl rfl
  | give t u p =>
    simp only [step] at h
    split at h <;> simp only [Option.some.injEq, reduceCtorEq] at h
    subst h
    refine hstay rfl (funext fun v => stand_of_pc ?_)
    by_cases hv : v = u
    · subst hv
      simp only [Function.update_self]
    · by_cases hv' : v = t
      · subst hv'
        simp only [Function.update_of_ne hv, Function.update_self]
      · simp only [Function.update_of_ne hv, Function.update_of_ne hv']

end LoginServerChat.AcceptBooks
