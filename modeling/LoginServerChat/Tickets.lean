import Mathlib.Data.Finset.Card
import Mathlib.Tactic

/-!
Tickets from a counter of 64 bits that several parties increment. A party that draws a number below
the bound has a ticket. One that draws the bound is refused and leaves the counter as it is; one that
draws a number above the bound is refused and takes its increment back later.
-/

namespace LoginServerChat.Tickets

variable {τ : Type*} [DecidableEq τ]

structure Counter (τ : Type*) where
  cnt : UInt64
  /-- The tickets, in the order in which they were drawn. -/
  issued : List UInt64
  /-- Those who have a ticket and have not used it. -/
  due : Finset τ
  /-- How many tickets have been used. -/
  made : ℕ
  /-- The bound has been drawn. -/
  reached : Bool
  /-- Those who have still to take their increment back. -/
  late : Finset τ

namespace Counter

/-- The counter starts one below 0, so that the first ticket is number 0. -/
def fresh : Counter τ := ⟨-1, [], ∅, 0, false, ∅⟩

def draw (bound : UInt64) (c : Counter τ) (t : τ) : Counter τ :=
  let n := c.cnt + 1
  if n = bound then { c with cnt := n, reached := true }
  else if bound < n then { c with cnt := n, late := insert t c.late }
  else { c with cnt := n, issued := c.issued ++ [n], due := insert t c.due }

def takeBack (c : Counter τ) (t : τ) : Counter τ :=
  { c with cnt := c.cnt - 1, late := c.late.erase t }

def use (c : Counter τ) (t : τ) : Counter τ :=
  { c with due := c.due.erase t, made := c.made + 1 }

/-- A ticket is given up. -/
def forgo (c : Counter τ) (t : τ) : Counter τ := { c with due := c.due.erase t }

end Counter

/-- Fewer increments wait to be taken back than there are numbers above the bound. -/
def Room (bound : UInt64) (c : Counter τ) : Prop :=
  c.reached = true → bound.toNat + c.late.card + 1 < 2 ^ 64

instance (bound : UInt64) (c : Counter τ) : Decidable (Room bound c) :=
  inferInstanceAs (Decidable (_ → _))

/-- What is said of the counter at all times. -/
structure Honest (bound : UInt64) (c : Counter τ) : Prop where
  /-- The tickets are 0, 1, 2 and so on, each of them once. -/
  once : c.issued.map UInt64.toNat = List.range c.issued.length
  bounded : c.issued.length ≤ bound.toNat
  used : c.made ≤ c.issued.length
  /-- From the bound on the counter does not drop below it. -/
  kept : c.reached = true → bound ≤ c.cnt
  /-- The next draw is refused only if there are no tickets left. -/
  refused : ¬ c.cnt + 1 < bound → c.issued.length = bound.toNat

structure Inv (bound : UInt64) (c : Counter τ) : Prop where
  once : c.issued.map UInt64.toNat = List.range c.issued.length
  bounded : c.issued.length ≤ bound.toNat
  used : c.made + c.due.card ≤ c.issued.length
  before : c.reached = false → c.late = ∅ ∧ c.cnt + 1 = UInt64.ofNat c.issued.length
  behind : c.reached = true → c.issued.length = bound.toNat ∧
    c.cnt.toNat = bound.toNat + c.late.card

variable {bound : UInt64} {c : Counter τ} {t : τ}

omit [DecidableEq τ] in
lemma inv_fresh : Inv bound (Counter.fresh : Counter τ) := by
  have hcnt : (-1 : UInt64) + 1 = UInt64.ofNat 0 := by decide
  exact ⟨rfl, Nat.zero_le _, Nat.zero_le _, fun _ => ⟨rfl, hcnt⟩, fun h => nomatch h⟩

omit [DecidableEq τ] in
/-- Before the bound is drawn, the next number is the number of tickets. -/
lemma Inv.next_toNat (h : Inv bound c) (hr : c.reached = false) :
    (c.cnt + 1).toNat = c.issued.length := by
  have hb := h.bounded
  have hlt := bound.toNat_lt
  rw [(h.before hr).2, UInt64.toNat_ofNat_of_lt']
  simp only [UInt64.size]
  omega

omit [DecidableEq τ] in
/-- Afterwards it is above the bound. -/
lemma Inv.next_behind (h : Inv bound c) (hroom : Room bound c) (hr : c.reached = true) :
    (c.cnt + 1).toNat = bound.toNat + c.late.card + 1 := by
  have h1 := (h.behind hr).2
  have h2 := hroom hr
  rw [UInt64.toNat_add, h1, Nat.mod_eq_of_lt]
  · rfl
  · exact h2

lemma inv_draw (h : Inv bound c) (hroom : Room bound c) (hl : t ∉ c.late) (hd : t ∉ c.due) :
    Inv bound (c.draw bound t) := by
  have hused := h.used
  unfold Counter.draw
  dsimp only
  cases hr : c.reached with
  | false =>
    have hn := h.next_toNat hr
    obtain ⟨hlate, hcnt⟩ := h.before hr
    split_ifs with h1 h2
    · have hlen : c.issued.length = bound.toNat := by rw [← hn, h1]
      refine ⟨h.once, h.bounded, hused, fun hf => (nomatch hf), fun _ => ⟨hlen, ?_⟩⟩
      dsimp only
      rw [h1, hlate, Finset.card_empty, Nat.add_zero]
    · have := h.bounded
      rw [UInt64.lt_iff_toNat_lt, hn] at h2
      omega
    · have hb := h.bounded
      have hne : c.issued.length ≠ bound.toNat := by
        rw [← hn]
        exact fun he => h1 (UInt64.toNat_inj.mp he)
      refine ⟨?_, ?_, ?_, fun _ => ⟨hlate, ?_⟩, fun hf => nomatch hf⟩
      · rw [List.map_append, h.once, List.length_append, List.length_singleton, List.range_succ,
          List.map_singleton, hn]
      · rw [List.length_append, List.length_singleton]
        omega
      · dsimp only
        rw [List.length_append, List.length_singleton, Finset.card_insert_of_notMem hd]
        omega
      · dsimp only
        rw [hcnt, List.length_append, List.length_singleton, UInt64.ofNat_add]
        rfl
  | true =>
    have hn := h.next_behind hroom hr
    obtain ⟨hlen, hcnt⟩ := h.behind hr
    have hgt : bound < c.cnt + 1 := by
      rw [UInt64.lt_iff_toNat_lt, hn]
      omega
    have hne : c.cnt + 1 ≠ bound := by
      intro he
      rw [he] at hgt
      exact absurd hgt (lt_irrefl bound.toNat)
    rw [if_neg hne, if_pos hgt]
    refine ⟨h.once, h.bounded, hused, fun hf => (nomatch hf), fun _ => ⟨hlen, ?_⟩⟩
    dsimp only
    rw [hn, Finset.card_insert_of_notMem hl]
    rfl

lemma inv_takeBack (h : Inv bound c) (hl : t ∈ c.late) : Inv bound (c.takeBack t) := by
  have hr : c.reached = true := by
    by_contra hf
    rw [Bool.not_eq_true] at hf
    rw [(h.before hf).1] at hl
    exact absurd hl (Finset.notMem_empty t)
  obtain ⟨hlen, hcnt⟩ := h.behind hr
  have hpos : 0 < c.late.card := Finset.card_pos.mpr ⟨t, hl⟩
  refine ⟨h.once, h.bounded, h.used, fun hf => absurd (hr.symm.trans hf) (by decide),
    fun _ => ⟨hlen, ?_⟩⟩
  have hone : (1 : UInt64) ≤ c.cnt := by
    rw [UInt64.le_iff_toNat_le, hcnt]
    change 1 ≤ _
    omega
  change (c.cnt - 1).toNat = bound.toNat + (c.late.erase t).card
  rw [UInt64.toNat_sub_of_le _ _ hone, hcnt, Finset.card_erase_of_mem hl]
  change bound.toNat + c.late.card - 1 = _
  omega

lemma inv_use (h : Inv bound c) (hd : t ∈ c.due) : Inv bound (c.use t) := by
  have hpos : 0 < c.due.card := Finset.card_pos.mpr ⟨t, hd⟩
  have hused := h.used
  refine ⟨h.once, h.bounded, ?_, h.before, h.behind⟩
  change c.made + 1 + (c.due.erase t).card ≤ c.issued.length
  rw [Finset.card_erase_of_mem hd]
  omega

lemma inv_forgo (h : Inv bound c) : Inv bound (c.forgo t) := by
  have hused := h.used
  refine ⟨h.once, h.bounded, ?_, h.before, h.behind⟩
  have := Finset.card_erase_le (s := c.due) (a := t)
  change c.made + (c.due.erase t).card ≤ c.issued.length
  omega

omit [DecidableEq τ] in
lemma Inv.honest (h : Inv bound c) : Honest bound c := by
  refine ⟨h.once, h.bounded, ?_, fun hr => ?_, fun hn => ?_⟩
  · have := h.used
    omega
  · rw [UInt64.le_iff_toNat_le, (h.behind hr).2]
    omega
  · cases hr : c.reached with
    | false =>
      have hb := h.bounded
      rw [UInt64.lt_iff_toNat_lt, h.next_toNat hr] at hn
      omega
    | true => exact (h.behind hr).1

/-! ### A counter in a machine -/

/-- What a party has to do with the counter. -/
inductive Phase
  | out
  | late
  | due
  deriving DecidableEq

/-- What a party has to do after it has drawn a number. -/
def drawn (bound n : UInt64) : Phase := if n = bound then .out else if bound < n then .late else .due

/-- The record `c` is of the counter `cnt` of a machine whose parties are in the phases `ph`. -/
structure Tied (bound : UInt64) (c : Counter τ) (cnt : UInt64) (ph : τ → Phase) : Prop where
  cnt : c.cnt = cnt
  late : ∀ t, t ∈ c.late ↔ ph t = .late
  due : ∀ t, t ∈ c.due ↔ ph t = .due
  inv : Inv bound c

variable {cnt : UInt64} {ph ph' : τ → Phase}

omit [DecidableEq τ] in
lemma tied_fresh (h : ∀ t, ph t = .out) : Tied bound Counter.fresh (-1) ph := by
  refine ⟨rfl, fun t => ?_, fun t => ?_, inv_fresh⟩
  · rw [h t]
    exact ⟨fun hm => absurd hm (Finset.notMem_empty t), fun hm => nomatch hm⟩
  · rw [h t]
    exact ⟨fun hm => absurd hm (Finset.notMem_empty t), fun hm => nomatch hm⟩

omit [DecidableEq τ] in
lemma Tied.same (h : Tied bound c cnt ph) (hph : ∀ t, ph' t = ph t) : Tied bound c cnt ph' := by
  obtain rfl : ph' = ph := funext hph
  exact h

/-- A set of parties after one of them has entered it. -/
lemma mem_insert_phase {s : Finset τ} {x : Phase} (h : ∀ u, u ∈ s ↔ ph u = x) (hx : ph' t = x)
    (ho : ∀ u ≠ t, ph' u = ph u) (u : τ) : u ∈ insert t s ↔ ph' u = x := by
  rw [Finset.mem_insert, h]
  by_cases hu : u = t
  · rw [hu]
    exact ⟨fun _ => hx, fun _ => .inl rfl⟩
  · rw [ho u hu]
    exact or_iff_right hu

/-- A set of parties after one of them has left it. -/
lemma mem_erase_phase {s : Finset τ} {x : Phase} (h : ∀ u, u ∈ s ↔ ph u = x) (hx : ph' t ≠ x)
    (ho : ∀ u ≠ t, ph' u = ph u) (u : τ) : u ∈ s.erase t ↔ ph' u = x := by
  rw [Finset.mem_erase, h]
  by_cases hu : u = t
  · rw [hu]
    exact ⟨fun hm => absurd rfl hm.1, fun hm => absurd hm hx⟩
  · rw [ho u hu]
    exact and_iff_right hu

omit [DecidableEq τ] in
/-- A set of parties that a party stays out of. -/
lemma mem_same_phase {s : Finset τ} {x : Phase} (h : ∀ u, u ∈ s ↔ ph u = x) (hx : ph t ≠ x)
    (hx' : ph' t ≠ x) (ho : ∀ u ≠ t, ph' u = ph u) (u : τ) : u ∈ s ↔ ph' u = x := by
  rw [h]
  by_cases hu : u = t
  · rw [hu]
    exact ⟨fun hm => absurd hm hx, fun hm => absurd hm hx'⟩
  · rw [ho u hu]

lemma tied_draw (h : Tied bound c cnt ph) (hroom : Room bound c) (ht : ph t = .out)
    (ht' : ph' t = drawn bound (cnt + 1)) (ho : ∀ u ≠ t, ph' u = ph u) :
    Tied bound (c.draw bound t) (cnt + 1) ph' := by
  have hl : t ∉ c.late := by
    rw [h.late, ht]
    exact (nomatch ·)
  have hd : t ∉ c.due := by
    rw [h.due, ht]
    exact (nomatch ·)
  have hnl : ph t ≠ .late := by rw [ht]; exact (nomatch ·)
  have hnd : ph t ≠ .due := by rw [ht]; exact (nomatch ·)
  have hinv := inv_draw h.inv hroom hl hd
  unfold Counter.draw at hinv ⊢
  unfold drawn at ht'
  dsimp only at hinv ⊢
  rw [h.cnt] at hinv ⊢
  split_ifs at hinv ht' ⊢
  · have hl' : ph' t ≠ .late := by rw [ht']; exact (nomatch ·)
    have hd' : ph' t ≠ .due := by rw [ht']; exact (nomatch ·)
    exact ⟨rfl, mem_same_phase h.late hnl hl' ho, mem_same_phase h.due hnd hd' ho, hinv⟩
  · have hd' : ph' t ≠ .due := by rw [ht']; exact (nomatch ·)
    exact ⟨rfl, mem_insert_phase h.late ht' ho, mem_same_phase h.due hnd hd' ho, hinv⟩
  · have hl' : ph' t ≠ .late := by rw [ht']; exact (nomatch ·)
    exact ⟨rfl, mem_same_phase h.late hnl hl' ho, mem_insert_phase h.due ht' ho, hinv⟩

lemma tied_takeBack (h : Tied bound c cnt ph) (ht : ph t = .late) (ht' : ph' t = .out)
    (ho : ∀ u ≠ t, ph' u = ph u) : Tied bound (c.takeBack t) (cnt - 1) ph' := by
  have hl' : ph' t ≠ .late := by rw [ht']; exact (nomatch ·)
  have hd : ph t ≠ .due := by rw [ht]; exact (nomatch ·)
  have hd' : ph' t ≠ .due := by rw [ht']; exact (nomatch ·)
  refine ⟨?_, mem_erase_phase h.late hl' ho, mem_same_phase h.due hd hd' ho,
    inv_takeBack h.inv ((h.late t).mpr ht)⟩
  change c.cnt - 1 = cnt - 1
  rw [h.cnt]

lemma tied_use (h : Tied bound c cnt ph) (ht : ph t = .due) (ht' : ph' t = .out)
    (ho : ∀ u ≠ t, ph' u = ph u) : Tied bound (c.use t) cnt ph' := by
  have hl : ph t ≠ .late := by rw [ht]; exact (nomatch ·)
  have hl' : ph' t ≠ .late := by rw [ht']; exact (nomatch ·)
  have hd' : ph' t ≠ .due := by rw [ht']; exact (nomatch ·)
  exact ⟨h.cnt, mem_same_phase h.late hl hl' ho, mem_erase_phase h.due hd' ho,
    inv_use h.inv ((h.due t).mpr ht)⟩

lemma tied_forgo (h : Tied bound c cnt ph) (ht : ph t = .due) (ht' : ph' t = .out)
    (ho : ∀ u ≠ t, ph' u = ph u) : Tied bound (c.forgo t) cnt ph' := by
  have hl : ph t ≠ .late := by rw [ht]; exact (nomatch ·)
  have hl' : ph' t ≠ .late := by rw [ht']; exact (nomatch ·)
  have hd' : ph' t ≠ .due := by rw [ht']; exact (nomatch ·)
  exact ⟨h.cnt, mem_same_phase h.late hl hl' ho, mem_erase_phase h.due hd' ho, inv_forgo h.inv⟩

/-- What a step of a machine does with the counter. -/
inductive Act
  | quiet
  | draw
  | takeBack
  | use
  | forgo
  deriving DecidableEq

def Counter.act (bound : UInt64) (c : Counter τ) (t : τ) : Act → Counter τ
  | .quiet => c
  | .draw => c.draw bound t
  | .takeBack => c.takeBack t
  | .use => c.use t
  | .forgo => c.forgo t

/-- The counter and the phase of a party before and after its step. -/
inductive Obeys (bound cnt : UInt64) : Act → UInt64 → Phase → Phase → Prop
  | quiet : Obeys bound cnt .quiet cnt .out .out
  | draw : Obeys bound cnt .draw (cnt + 1) .out (drawn bound (cnt + 1))
  | takeBack : Obeys bound cnt .takeBack (cnt - 1) .late .out
  | use : Obeys bound cnt .use cnt .due .out
  | forgo : Obeys bound cnt .forgo cnt .due .out

lemma obeys_draw {bound cnt : UInt64} {x : Phase} (h : drawn bound (cnt + 1) = x) :
    Obeys bound cnt .draw (cnt + 1) .out x := h ▸ .draw

variable {k : Act} {cnt' : UInt64}

/-- **One step** of a machine. -/
lemma Tied.act (h : Tied bound c cnt ph) (hroom : Room bound c)
    (hk : Obeys bound cnt k cnt' (ph t) (ph' t)) (ho : ∀ u ≠ t, ph' u = ph u) :
    Tied bound (c.act bound t k) cnt' ph' := by
  obtain ⟨x, hx⟩ : ∃ x, ph t = x := ⟨_, rfl⟩
  obtain ⟨x', hx'⟩ : ∃ x', ph' t = x' := ⟨_, rfl⟩
  rw [hx, hx'] at hk
  cases hk with
  | quiet =>
    refine h.same fun u => ?_
    by_cases hu : u = t
    · rw [hu, hx, hx']
    · exact ho u hu
  | draw => exact tied_draw h hroom hx hx' ho
  | takeBack => exact tied_takeBack h hx hx' ho
  | use => exact tied_use h hx hx' ho
  | forgo => exact tied_forgo h hx hx' ho

/-- The things that have been made: `n` at the start, and one for each ticket that has been used. -/
def Stock (created : ℕ → Bool) (n : ℕ) (c : Counter τ) : Prop :=
  ∃ l : List ℕ, (∀ q, created q = true ↔ q ∈ l) ∧ l.length = n + c.made

/-- What a step makes. -/
def Makes (created created' : ℕ → Bool) (k : Act) : Prop :=
  (k = .use ∧ ∃ q, created' = Function.update created q true) ∨ (k ≠ .use ∧ created' = created)

variable {created created' : ℕ → Bool} {n : ℕ}

lemma made_act (hk : k ≠ .use) : (c.act bound t k).made = c.made := by
  cases k with
  | draw =>
    change (c.draw bound t).made = c.made
    unfold Counter.draw
    dsimp only
    split_ifs <;> rfl
  | use => exact absurd rfl hk
  | quiet => rfl
  | takeBack => rfl
  | forgo => rfl

lemma Stock.act (h : Stock created n c) (hm : Makes created created' k) :
    Stock created' n (c.act bound t k) := by
  obtain ⟨l, hl, hlen⟩ := h
  rcases hm with ⟨rfl, q, rfl⟩ | ⟨hk, rfl⟩
  · refine ⟨q :: l, fun z => ?_, ?_⟩
    · rw [List.mem_cons]
      by_cases hz : z = q
      · rw [hz, Function.update_self]
        exact ⟨fun _ => .inl rfl, fun _ => rfl⟩
      · rw [Function.update_of_ne hz, hl]
        exact (or_iff_right hz).symm
    · rw [List.length_cons, hlen]
      rfl
  · exact ⟨l, hl, by rw [made_act hk]; exact hlen⟩

omit [DecidableEq τ] in
/-- No more is made than there were at the start and tickets. -/
lemma Stock.bounded (h : Stock created n c) (hh : Honest bound c) :
    ∃ l : List ℕ, (∀ q, created q = true ↔ q ∈ l) ∧ l.length ≤ n + bound.toNat := by
  obtain ⟨l, hl, hlen⟩ := h
  have h1 := hh.used
  have h2 := hh.bounded
  exact ⟨l, hl, by omega⟩

end LoginServerChat.Tickets
