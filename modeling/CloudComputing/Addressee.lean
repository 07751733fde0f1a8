import CloudComputing.EmulNet

/-!
# Delivery to the addressee

`ENrecv` compares binary addresses as C strings.  The id is stored in
little-endian order, so the comparison stops at the first zero byte of an id:
the ids `256` and `512` both look empty.  Below `512` members all ids look
different, and every message reaches the node it was sent to.
-/

namespace CloudComputing

namespace Address

theorem cString_of_id {i : Nat} (hlt : i < 65536) : cString ⟨Int32.ofNat i, 0⟩ =
    if i % 256 = 0 then [] else if i < 256 then [UInt8.ofNat i]
    else [UInt8.ofNat i, UInt8.ofNat (i / 256)] := by
  have hbyte : ∀ n : Nat, UInt8.ofNat n = 0 ↔ n % 256 = 0 := by
    intro n
    rw [← UInt8.toNat_inj]
    simp
  unfold cString
  rw [addr_of_id hlt]
  by_cases hlow : i % 256 = 0
  · rw [if_pos hlow, List.takeWhile_cons_of_neg (by simpa using (hbyte i).mpr hlow)]
  rw [if_neg hlow, List.takeWhile_cons_of_pos (by simpa [hbyte] using hlow)]
  by_cases hhigh : i < 256
  · have hzero : UInt8.ofNat (i / 256) = 0 := (hbyte _).mpr (by omega)
    rw [if_pos hhigh, List.takeWhile_cons_of_neg (by simpa using hzero)]
  · have hne : ¬ UInt8.ofNat (i / 256) = 0 := fun h => by
      have := (hbyte _).mp h
      omega
    rw [if_neg hhigh, List.takeWhile_cons_of_pos (by simpa using hne),
      List.takeWhile_cons_of_neg (by simp)]

/-- The id that looks like this, among the first 511. -/
def idOf : List UInt8 → Nat
  | [] => 256
  | [low] => low.toNat
  | low :: high :: _ => low.toNat + 256 * high.toNat

theorem idOf_cString {i : Nat} (hpos : 0 < i) (hlt : i < 512) :
    idOf (cString ⟨Int32.ofNat i, 0⟩) = i := by
  rw [cString_of_id (by omega)]
  split
  case isTrue => simp [idOf]; omega
  case isFalse =>
    split
    case isTrue hhigh => simpa [idOf] using hhigh
    case isFalse => simp [idOf]; omega

/-- Below 512 members `strcmp` tells the members apart. -/
theorem eq_of_strcmpEq {i j : Nat} (hi : 0 < i) (hi' : i < 512) (hj : 0 < j) (hj' : j < 512)
    (h : strcmpEq ⟨Int32.ofNat i, 0⟩ ⟨Int32.ofNat j, 0⟩ = true) : i = j := by
  have hsame := congrArg idOf (of_decide_eq_true h)
  rwa [idOf_cString hi hi', idOf_cString hj hj'] at hsame

end Address

namespace EmulNet

variable {δ : Type*} {n : Nat}

/-! ## Runs of the network -/

def enInits : Nat → EmulNet δ → List Address × EmulNet δ
  | 0, en => ([], en)
  | n + 1, en =>
      let (a, en) := en.enInit
      let (as, en) := enInits n en
      (a :: as, en)

def group (n : Nat) : List Address :=
  (enInits n (new fun _ _ => 0 : EmulNet Unit)).1

inductive Call (δ : Type*) where
  | send (dropped : Bool) (time : Int) (myaddr toaddr : Address) (data : δ) (size : Nat)
  | recv (time : Int) (myaddr : Address)

def Call.Within (members : List Address) : Call δ → Prop
  | send _ _ myaddr toaddr _ _ => myaddr ∈ members ∧ toaddr ∈ members
  | recv _ myaddr => myaddr ∈ members

def Call.IsRecvOf (b : Address) : Call δ → Prop
  | send .. => False
  | recv _ myaddr => myaddr = b

def call (en : EmulNet δ) : Call δ → EmulNet δ
  | .send dropped time myaddr toaddr data size =>
      (en.enSend dropped time myaddr toaddr data size).1
  | .recv time myaddr => (en.enRecv time myaddr).1

def calls (en : EmulNet δ) (l : List (Call δ)) : EmulNet δ :=
  l.foldl call en

def Reached (n : Nat) (en : EmulNet δ) : Prop :=
  ∃ memory before, (∀ c ∈ before, Call.Within (group n) c) ∧
    en = calls (enInits n (new memory)).2 before

/-- Whatever is handed over was sent to the node that receives, and whatever is accepted is handed
over when its addressee receives next. -/
structure DeliversToAddressee (n : Nat) : Prop where
  handedOver : ∀ {δ : Type} {en : EmulNet δ}, Reached n en → ∀ time, ∀ b ∈ group n,
    ∀ emsg ∈ (en.enRecv time b).2, emsg.dst = b
  accepted : ∀ {δ : Type} {en : EmulNet δ}, Reached n en → ∀ dropped time data size,
    ∀ a ∈ group n, ∀ b ∈ group n, en.refuses dropped size = false →
    ∀ between : List (Call δ), (∀ c ∈ between, c.Within (group n) ∧ ¬ c.IsRecvOf b) →
    ∀ time', ⟨size, a, b, data⟩ ∈
      ((calls (en.enSend dropped time a b data size).1 between).enRecv time' b).2

/-! ## Addresses of a group -/

theorem enInits_addresses (n : Nat) (en : EmulNet δ) : (enInits n en).1 =
    (List.range n).map fun i => ⟨en.nextid + Int32.ofNat i, 0⟩ := by
  induction n generalizing en with
  | zero => rfl
  | succ n ih =>
      rw [enInits, List.range_succ_eq_map, List.map_cons, List.map_map]
      simp only [ih, enInit]
      congr 1
      · simp
      · apply List.map_congr_left
        intro i _
        simp only [Function.comp_apply, Int32.ofNat_add, Nat.succ_eq_add_one, Int32.add_assoc]
        rw [Int32.add_comm 1]
        rfl

theorem enInits_buff (n : Nat) (en : EmulNet δ) : (enInits n en).2.buff = en.buff := by
  induction n generalizing en with
  | zero => rfl
  | succ n ih => exact ih en.enInit.2

theorem mem_group {a : Address} : a ∈ group n ↔ ∃ i, 0 < i ∧ i ≤ n ∧ a = ⟨Int32.ofNat i, 0⟩ := by
  rw [group, enInits_addresses, List.mem_map]
  constructor
  · rintro ⟨i, hi, rfl⟩
    refine ⟨1 + i, by omega, ?_, by rw [Int32.ofNat_add]; rfl⟩
    have := List.mem_range.mp hi
    omega
  · rintro ⟨i, hpos, hle, rfl⟩
    obtain ⟨j, rfl⟩ : ∃ j, i = 1 + j := ⟨i - 1, by omega⟩
    exact ⟨j, List.mem_range.mpr (by omega), by rw [Int32.ofNat_add]; rfl⟩

theorem eq_of_addressed (hn : n < 512) {a b : Address} (ha : a ∈ group n) (hb : b ∈ group n)
    (h : a.strcmpEq b = true) : a = b := by
  obtain ⟨i, hi, hi', rfl⟩ := mem_group.mp ha
  obtain ⟨j, hj, hj', rfl⟩ := mem_group.mp hb
  rw [Address.eq_of_strcmpEq hi (by omega) hj (by omega) h]

theorem mem_enRecv {en : EmulNet δ} {time : Int} {b : Address} {emsg : EnMsg δ} :
    emsg ∈ (en.enRecv time b).2 ↔ emsg ∈ en.buff ∧ emsg.dst.strcmpEq b = true := by
  rw [(enRecv_delivered time b en).mem_iff, List.mem_filter]
  rfl

/-! ## What the buffer holds -/

section Buffer

variable {members : List Address} {en : EmulNet δ} {c : Call δ} {emsg : EnMsg δ}

theorem dst_call (hc : c.Within members) (h : ∀ emsg ∈ en.buff, emsg.dst ∈ members) :
    ∀ emsg ∈ (en.call c).buff, emsg.dst ∈ members := by
  intro emsg hmem
  cases c with
  | send dropped time a b data size =>
      rw [call, enSend] at hmem
      split at hmem
      · exact h emsg hmem
      · rcases List.mem_append.mp hmem with hold | hnew
        · exact h emsg hold
        · rw [List.mem_singleton.mp hnew]
          exact hc.2
  | recv time a =>
      rw [call, (enRecv_buff time a en).mem_iff] at hmem
      exact h emsg (List.mem_of_mem_filter hmem)

theorem dst_calls {l : List (Call δ)} (hl : ∀ c ∈ l, c.Within members)
    (h : ∀ emsg ∈ en.buff, emsg.dst ∈ members) : ∀ emsg ∈ (en.calls l).buff, emsg.dst ∈ members := by
  induction l generalizing en with
  | nil => exact h
  | cons c l ih =>
      exact ih (fun c' hc' => hl c' (List.mem_cons_of_mem c hc'))
        (dst_call (hl c List.mem_cons_self) h)

theorem Reached.dst (h : Reached n en) : ∀ emsg ∈ en.buff, emsg.dst ∈ group n := by
  obtain ⟨memory, before, hbefore, rfl⟩ := h
  apply dst_calls hbefore
  rw [enInits_buff]
  simp [new]

theorem mem_buff_call (hn : n < 512) (hc : c.Within (group n)) (hnot : ¬ c.IsRecvOf emsg.dst)
    (hdst : emsg.dst ∈ group n) (h : emsg ∈ en.buff) : emsg ∈ (en.call c).buff := by
  cases c with
  | send dropped time a b data size =>
      rw [call, enSend]
      split
      · exact h
      · exact List.mem_append_left _ h
  | recv time a =>
      rw [call, (enRecv_buff time a en).mem_iff, List.mem_filter]
      refine ⟨h, ?_⟩
      have hne : ¬ emsg.dst.strcmpEq a = true := fun heq =>
        hnot (eq_of_addressed hn hdst hc heq).symm
      simpa [addressedTo] using hne

theorem mem_buff_calls (hn : n < 512) {l : List (Call δ)}
    (hl : ∀ c ∈ l, c.Within (group n) ∧ ¬ c.IsRecvOf emsg.dst) (hdst : emsg.dst ∈ group n)
    (h : emsg ∈ en.buff) : emsg ∈ (en.calls l).buff := by
  induction l generalizing en with
  | nil => exact h
  | cons c l ih =>
      obtain ⟨hc, hnot⟩ := hl c List.mem_cons_self
      exact ih (fun c' hc' => hl c' (List.mem_cons_of_mem c hc')) (mem_buff_call hn hc hnot hdst h)

end Buffer

/-! ## The addressee -/

/-- What node `512` is sent node `256` receives. -/
theorem misdelivered (hn : 512 ≤ n) : ∃ en : EmulNet Unit, Reached n en ∧
    ∃ b ∈ group n, ∃ emsg ∈ (en.enRecv 0 b).2, emsg.dst ≠ b := by
  have hmem : ∀ i, 0 < i → i ≤ 512 → (⟨Int32.ofNat i, 0⟩ : Address) ∈ group n :=
    fun i hpos hle => mem_group.mpr ⟨i, hpos, by omega, rfl⟩
  let start := (enInits n (new fun _ _ => 0 : EmulNet Unit)).2
  have hempty : start.buff = [] := enInits_buff n _
  refine ⟨start.calls [.send false 0 ⟨1, 0⟩ ⟨512, 0⟩ () 4], ⟨_, _, ?_, rfl⟩, ⟨256, 0⟩,
    hmem 256 (by decide) (by decide), ⟨4, ⟨1, 0⟩, ⟨512, 0⟩, ()⟩, ?_, by decide⟩
  · intro c hc
    rw [List.mem_singleton.mp hc]
    exact ⟨hmem 1 (by decide) (by decide), hmem 512 (by decide) (by decide)⟩
  · have haccept : start.refuses false 4 = false := by
      rw [refuses, hempty]
      decide
    rw [mem_enRecv]
    refine ⟨?_, by decide⟩
    simp only [calls, List.foldl_cons, List.foldl_nil, call]
    rw [enSend_accepted haccept, hempty]
    exact List.mem_cons_self

/-- The network delivers to the addressee in groups of less than 512 nodes, and in no others. -/
theorem deliversToAddressee_iff (n : Nat) : DeliversToAddressee n ↔ n < 512 := by
  constructor
  · intro h
    by_contra hn
    obtain ⟨en, hreached, b, hb, emsg, hmem, hne⟩ := misdelivered (not_lt.mp hn)
    exact hne (h.handedOver hreached 0 b hb emsg hmem)
  · intro hn
    constructor
    case handedOver =>
      intro δ en hreached time b hb emsg hmem
      obtain ⟨hbuff, heq⟩ := mem_enRecv.mp hmem
      exact eq_of_addressed hn (hreached.dst emsg hbuff) hb heq
    case accepted =>
      intro δ en hreached dropped time data size a ha b hb haccept between hbetween time'
      rw [mem_enRecv]
      refine ⟨mem_buff_calls hn hbetween hb ?_, decide_eq_true rfl⟩
      rw [enSend_accepted haccept]
      exact List.mem_append_right _ (List.mem_singleton_self _)

theorem not_deliversToAddressee_512 : ¬ DeliversToAddressee 512 := by
  intro h
  obtain ⟨en, hreached, b, hb, emsg, hmem, hne⟩ := misdelivered (le_refl 512)
  exact hne (h.handedOver hreached 0 b hb emsg hmem)

end EmulNet

end CloudComputing
