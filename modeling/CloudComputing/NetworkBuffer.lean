import CloudComputing.EmulNet

/-!
# The network as it lies in memory

The buffer of `EmulNet` is an array with a fill count, and the counters are two
matrices of `int`.  Every access checks its index here, and the assertions of
`ENsend` and `ENrecv` stop the program.  `EmulNet` is what this object stands
for.
-/

namespace CloudComputing

open Lib

/-- `class EM`; of the array `buff` the slots below `ENBUFFSIZE` exist. -/
structure EM (μ : Type*) where
  nextid : Int32
  currbuffsize : Int
  firsteltindex : Int
  buff : Nat → μ

namespace EM

variable {μ : Type*}

def slot (i : Int) (em : EM μ) : Option μ :=
  if 0 ≤ i ∧ i < EmulNet.enBuffSize then some (em.buff i.toNat) else none

def setSlot (i : Int) (x : μ) (em : EM μ) : Option (EM μ) :=
  if 0 ≤ i ∧ i < EmulNet.enBuffSize then
    some { em with buff := Function.update em.buff i.toNat x }
  else none

/-- The loop of `operator =`; it ends at slot one. -/
def copySlots (anotherEM : EM μ) : Nat → EM μ → Option (EM μ)
  | 0, em => some em
  | i + 1, em => do
      let x ← anotherEM.slot (i + 1)
      let em ← em.setSlot (i + 1) x
      copySlots anotherEM i em

/-- `operator =`; the loop starts at `currbuffsize`. -/
def assign (anotherEM em : EM μ) : Option (EM μ) :=
  copySlots anotherEM anotherEM.currbuffsize.toNat
    { em with
        nextid := anotherEM.nextid
        currbuffsize := anotherEM.currbuffsize
        firsteltindex := anotherEM.firsteltindex }

/-- The copy is made inside both arrays and has the messages of the original. -/
def CopiedTo (anotherEM em : EM μ) : Prop :=
  ∃ em', assign anotherEM em = some em' ∧ em'.nextid = anotherEM.nextid ∧
    em'.currbuffsize = anotherEM.currbuffsize ∧
    ∀ i : Nat, i < anotherEM.currbuffsize → em'.buff i = anotherEM.buff i

/-- `buff[currbuffsize++] = x`. -/
def push (x : μ) (em : EM μ) : Option (EM μ) := do
  let em ← em.setSlot em.currbuffsize x
  return { em with currbuffsize := em.currbuffsize + 1 }

/-- `buff[i] = buff[currbuffsize-1]` and `currbuffsize--`. -/
def removeAt (i : Int) (em : EM μ) : Option (EM μ) := do
  let last ← em.slot (em.currbuffsize - 1)
  let em ← em.setSlot i last
  return { em with currbuffsize := em.currbuffsize - 1 }

def messages (em : EM μ) : List μ :=
  SwapRemove.live em.currbuffsize.toNat em.buff

/-- The fill count is one of the array. -/
structure WellFormed (em : EM μ) : Prop where
  nonneg : 0 ≤ em.currbuffsize
  le : em.currbuffsize ≤ EmulNet.enBuffSize

section

variable {anotherEM em em' : EM μ} {i : Nat} {x : μ}

theorem slot_of_lt (hi : i < EmulNet.enBuffSize) : em.slot i = some (em.buff i) := by
  rw [slot, if_pos (by omega)]
  rfl

theorem setSlot_of_lt (hi : i < EmulNet.enBuffSize) :
    em.setSlot i x = some { em with buff := Function.update em.buff i x } := by
  rw [setSlot, if_pos (by omega)]
  rfl

/-! ## Copying -/

theorem copySlots_succ (hi : i + 1 < EmulNet.enBuffSize) : copySlots anotherEM (i + 1) em =
    copySlots anotherEM i
      { em with buff := Function.update em.buff (i + 1) (anotherEM.buff (i + 1)) } := by
  have hslot : anotherEM.slot ((i : Int) + 1) = some (anotherEM.buff (i + 1)) :=
    slot_of_lt (i := i + 1) hi
  have hset : em.setSlot ((i : Int) + 1) (anotherEM.buff (i + 1)) = _ :=
    setSlot_of_lt (i := i + 1) hi
  rw [copySlots, hslot, Option.bind_eq_bind, Option.bind_some, hset, Option.bind_eq_bind,
    Option.bind_some]

/-- The loop copies the slots `1, …, i`. -/
theorem copySlots_of_lt (hi : i < EmulNet.enBuffSize) (anotherEM em : EM μ) :
    ∃ em', copySlots anotherEM i em = some em' ∧ em'.nextid = em.nextid ∧
      em'.currbuffsize = em.currbuffsize ∧
      ∀ j, em'.buff j = if 0 < j ∧ j ≤ i then anotherEM.buff j else em.buff j := by
  induction i generalizing em with
  | zero =>
      refine ⟨em, rfl, rfl, rfl, fun j => ?_⟩
      rw [if_neg (by omega)]
  | succ i ih =>
      rw [copySlots_succ hi]
      obtain ⟨em', hcopy, hnext, hsize, hbuff⟩ := ih (by omega)
        { em with buff := Function.update em.buff (i + 1) (anotherEM.buff (i + 1)) }
      refine ⟨em', hcopy, hnext, hsize, fun j => ?_⟩
      rw [hbuff]
      by_cases hj : j = i + 1
      · subst hj
        simp
      · simp only [Function.update_of_ne hj]
        congr 1
        simp only [eq_iff_iff]
        omega

theorem copySlots_of_le (hi : EmulNet.enBuffSize ≤ i) : copySlots anotherEM i em = none := by
  cases i with
  | zero => simp [EmulNet.enBuffSize] at hi
  | succ i =>
      have hslot : anotherEM.slot ((i : Int) + 1) = none := if_neg (by omega)
      rw [copySlots, hslot]
      rfl

/-- The copy is faithful when the buffer is empty, or when it is not full and the first slots
happen to agree: slot zero is not copied, and the slot behind the last one is. -/
theorem copiedTo_iff (hnonneg : 0 ≤ anotherEM.currbuffsize)
    (hle : anotherEM.currbuffsize ≤ EmulNet.enBuffSize) :
    CopiedTo anotherEM em ↔ anotherEM.currbuffsize = 0 ∨
      anotherEM.currbuffsize < EmulNet.enBuffSize ∧ em.buff 0 = anotherEM.buff 0 := by
  by_cases hfull : EmulNet.enBuffSize ≤ anotherEM.currbuffsize.toNat
  · have hpos : 0 < EmulNet.enBuffSize := by decide
    constructor
    · rintro ⟨em', hcopy, -⟩
      rw [assign, copySlots_of_le hfull] at hcopy
      cases hcopy
    · rintro (hzero | ⟨hlt, -⟩) <;> omega
  · obtain ⟨em', hcopy, hnext, hsize, hbuff⟩ := copySlots_of_lt (Nat.lt_of_not_le hfull)
      anotherEM
      { em with
          nextid := anotherEM.nextid
          currbuffsize := anotherEM.currbuffsize
          firsteltindex := anotherEM.firsteltindex }
    have hfirst : em'.buff 0 = em.buff 0 := by
      rw [hbuff, if_neg (by omega)]
    constructor
    · rintro ⟨em'', hcopy', -, -, hsame⟩
      obtain rfl : em' = em'' := Option.some.inj (hcopy.symm.trans hcopy')
      by_cases hzero : anotherEM.currbuffsize = 0
      · exact Or.inl hzero
      · refine Or.inr ⟨by omega, ?_⟩
        rw [← hfirst]
        exact hsame 0 (by omega)
    · intro h
      refine ⟨em', hcopy, hnext, hsize, fun i hi => ?_⟩
      rw [hbuff]
      split
      case isTrue => rfl
      case isFalse hout =>
        obtain rfl : i = 0 := by omega
        rcases h with hzero | ⟨-, hslot⟩
        · omega
        · exact hslot

/-- One message in the buffer, another one in the memory of the copy. -/
theorem not_copiedTo_one : ¬ ∀ anotherEM em : EM Nat, 0 ≤ anotherEM.currbuffsize →
    anotherEM.currbuffsize ≤ EmulNet.enBuffSize → CopiedTo anotherEM em := by
  intro hall
  obtain ⟨em', hcopy, -, -, hsame⟩ := hall ⟨1, 1, 0, fun _ => 7⟩ ⟨1, 0, 0, fun _ => 0⟩ (by decide)
    (by decide)
  have hfirst : (assign (⟨1, 1, 0, fun _ => 7⟩ : EM Nat) ⟨1, 0, 0, fun _ => 0⟩).map
      (fun em => em.buff 0) = some 0 := by decide
  rw [hcopy, Option.map_some, hsame 0 (by decide)] at hfirst
  cases hfirst

theorem copiedTo_iff_one :
    CopiedTo (⟨1, 1, 0, fun _ => 7⟩ : EM Nat) ⟨1, 0, 0, fun _ => 7⟩ ↔
      (1 : Int) = 0 ∨ (1 : Int) < EmulNet.enBuffSize ∧ 7 = 7 :=
  copiedTo_iff (by decide) (by decide)

/-! ## The buffered messages -/

@[simp] theorem length_messages : em.messages.length = em.currbuffsize.toNat :=
  SwapRemove.length_live

theorem slot_eq_messages (h : em.WellFormed) (hi : i < em.messages.length) :
    em.slot i = em.messages[i]? := by
  have hle := h.le
  rw [length_messages] at hi
  rw [slot_of_lt (by omega), messages, SwapRemove.getElem?_live hi]

theorem exists_push (h : em.WellFormed) (hlt : em.currbuffsize < EmulNet.enBuffSize) (x : μ) :
    ∃ em', em.push x = some em' ∧ em'.WellFormed ∧ em'.messages = em.messages ++ [x] ∧
      em'.nextid = em.nextid := by
  obtain ⟨n, hn⟩ := Int.eq_ofNat_of_zero_le h.nonneg
  have hset : em.setSlot n x = some { em with buff := Function.update em.buff n x } :=
    setSlot_of_lt (by omega)
  rw [← hn] at hset
  refine ⟨{ em with buff := Function.update em.buff n x, currbuffsize := em.currbuffsize + 1 },
    ?_, ⟨?_, ?_⟩, ?_, rfl⟩
  · rw [push, hset]
    rfl
  · exact Int.add_nonneg h.nonneg (by decide)
  · exact hlt
  · have hsize : (em.currbuffsize + 1).toNat = n + 1 := by omega
    have hsize' : em.currbuffsize.toNat = n := by omega
    unfold messages
    rw [hsize, hsize', SwapRemove.live_succ, SwapRemove.live_update_self]
    simp

theorem exists_removeAt (h : em.WellFormed) (hi : i < em.messages.length) :
    ∃ em', em.removeAt i = some em' ∧ em'.WellFormed ∧
      em'.messages = SwapRemove.swapRemove em.messages i ∧ em'.nextid = em.nextid := by
  have hle := h.le
  rw [length_messages] at hi
  obtain ⟨n, hn⟩ : ∃ n : Nat, em.currbuffsize = n + 1 := ⟨em.currbuffsize.toNat - 1, by omega⟩
  have hlast : em.slot (em.currbuffsize - 1) = some (em.buff n) := by
    rw [hn, Int.add_sub_cancel]
    exact slot_of_lt (by omega)
  refine ⟨{ em with buff := Function.update em.buff i (em.buff n),
                    currbuffsize := em.currbuffsize - 1 }, ?_, ⟨?_, ?_⟩, ?_, rfl⟩
  · rw [removeAt, hlast, Option.bind_eq_bind, Option.bind_some, setSlot_of_lt (by omega)]
    rfl
  · change 0 ≤ em.currbuffsize - 1
    omega
  · change em.currbuffsize - 1 ≤ _
    omega
  · have hsize : (em.currbuffsize - 1).toNat = n := by omega
    have hsize' : em.currbuffsize.toNat = n + 1 := by omega
    unfold messages
    rw [hsize, hsize', SwapRemove.swapRemove_live (by omega)]

end

end EM

namespace EmulNet

variable {δ : Type}

/-- `EmulNet` with its memory; the rows `0, …, MAX_NODES` and the columns below `MAX_TIME` of the
two matrices exist. -/
structure Object (δ : Type) where
  sentMsgs : Int → Int → Int32
  recvMsgs : Int → Int → Int32
  emulnet : EM (EnMsg δ)

/-- The constructor, in the memory it finds. -/
def Object.new (memory : Object δ) : Object δ where
  sentMsgs := fun i j =>
    if 0 ≤ i ∧ i < maxNodes ∧ 0 ≤ j ∧ j < maxTime then 0 else memory.sentMsgs i j
  recvMsgs := fun i j =>
    if 0 ≤ i ∧ i < maxNodes ∧ 0 ≤ j ∧ j < maxTime then 0 else memory.recvMsgs i j
  emulnet := { memory.emulnet with nextid := 1, currbuffsize := 0 }

/-- What the assertions and the bounds of a matrix admit. -/
def Admits (id time : Int) : Prop :=
  0 ≤ id ∧ id ≤ maxNodes ∧ 0 ≤ time ∧ time < maxTime

instance (id time : Int) : Decidable (Admits id time) :=
  inferInstanceAs (Decidable (_ ∧ _ ∧ _ ∧ _))

/-- `counts[id][time]++` behind its two assertions. -/
def increment (counts : Int → Int → Int32) (id time : Int) : Option (Int → Int → Int32) :=
  if Admits id time then
    some fun i t => if i = id ∧ t = time then counts i t + 1 else counts i t
  else none

namespace Object

/-- The test in front of `ENsend`. -/
def refuses (o : Object δ) (dropped : Bool) (size : Nat) : Bool :=
  enBuffSize ≤ o.emulnet.currbuffsize || maxMsgSize ≤ size + sizeofEnMsg || dropped

def enSend (dropped : Bool) (time : Int) (myaddr toaddr : Address) (data : δ) (size : Nat)
    (o : Object δ) : Option (Object δ × Nat) :=
  if o.refuses dropped size then some (o, 0)
  else do
    let em ← o.emulnet.push ⟨size, myaddr, toaddr, data⟩
    let sentMsgs ← increment o.sentMsgs myaddr.id.toInt time
    return ({ o with sentMsgs := sentMsgs, emulnet := em }, size)

/-- The loop of `ENrecv` below the index `i`, with the messages handed to the callback. -/
def recvLoop (time : Int) (myaddr : Address) :
    Nat → Object δ → Option (Object δ × List (EnMsg δ))
  | 0, o => some (o, [])
  | i + 1, o => do
      let emsg ← o.emulnet.slot i
      if addressedTo myaddr emsg then
        let em ← o.emulnet.removeAt i
        let recvMsgs ← increment o.recvMsgs myaddr.id.toInt time
        let (o, handed) ←
          recvLoop time myaddr i { o with recvMsgs := recvMsgs, emulnet := em }
        return (o, emsg :: handed)
      else recvLoop time myaddr i o

def enRecv (time : Int) (myaddr : Address) (o : Object δ) :
    Option (Object δ × List (EnMsg δ)) :=
  recvLoop time myaddr o.emulnet.currbuffsize.toNat o

/-- What the object stands for. -/
def abstract (o : Object δ) : EmulNet δ where
  nextid := o.emulnet.nextid
  buff := o.emulnet.messages
  sentMsgs := fun i t => (o.sentMsgs i t).toInt
  recvMsgs := fun i t => (o.recvMsgs i t).toInt

/-- The object has the messages and, as far as an `int` goes, the counters of the network. -/
structure Represents (o : Object δ) (en : EmulNet δ) : Prop where
  wellFormed : o.emulnet.WellFormed
  nextid : o.emulnet.nextid = en.nextid
  buff : o.emulnet.messages = en.buff
  sentMsgs : ∀ i t, o.sentMsgs i t = Int32.ofInt (en.sentMsgs i t)
  recvMsgs : ∀ i t, o.recvMsgs i t = Int32.ofInt (en.recvMsgs i t)

variable {o o' : Object δ} {en : EmulNet δ} {time : Int} {myaddr toaddr : Address} {data : δ}
  {dropped : Bool} {size i : Nat} {counts : Int → Int → Int32} {counts' : Int → Int → Int}
  {handed : List (EnMsg δ)}

theorem represents_abstract (h : o.emulnet.WellFormed) : Represents o o.abstract where
  wellFormed := h
  nextid := rfl
  buff := rfl
  sentMsgs := fun i t => by simp [abstract]
  recvMsgs := fun i t => by simp [abstract]

theorem Represents.currbuffsize (h : Represents o en) :
    o.emulnet.currbuffsize = en.buff.length := by
  have hnonneg := h.wellFormed.nonneg
  rw [← h.buff, EM.length_messages]
  omega

theorem Represents.refuses (h : Represents o en) :
    o.refuses dropped size = en.refuses dropped size := by
  unfold Object.refuses EmulNet.refuses
  rw [h.currbuffsize]
  simp

theorem exists_increment {id : Int} (hadmits : Admits id time)
    (hcounts : ∀ i t, counts i t = Int32.ofInt (counts' i t)) :
    ∃ incremented, increment counts id time = some incremented ∧
      ∀ i t, incremented i t = Int32.ofInt (count counts' id time 1 i t) := by
  refine ⟨_, if_pos hadmits, fun i t => ?_⟩
  unfold count
  split
  case isTrue => rw [hcounts, Int32.ofInt_add]; rfl
  case isFalse => exact hcounts i t

theorem count_count (counts' : Int → Int → Int) (id time m n : Int) :
    count (count counts' id time m) id time n = count counts' id time (m + n) := by
  funext i t
  unfold count
  split
  case isTrue => rw [Int.add_assoc]
  case isFalse => rfl

/-- `ENsend` does on the object what it does on the network. -/
theorem exists_enSend (h : Represents o en) (hadmits : Admits myaddr.id.toInt time)
    (dropped : Bool) (toaddr : Address) (data : δ) (size : Nat) :
    ∃ o', o.enSend dropped time myaddr toaddr data size =
        some (o', (en.enSend dropped time myaddr toaddr data size).2) ∧
      Represents o' (en.enSend dropped time myaddr toaddr data size).1 := by
  unfold Object.enSend EmulNet.enSend
  rw [h.refuses]
  split
  case isTrue => exact ⟨o, rfl, h⟩
  case isFalse hnot =>
    have hlt : o.emulnet.currbuffsize < enBuffSize := by
      rw [h.currbuffsize]
      simp only [EmulNet.refuses, Bool.or_eq_true, decide_eq_true_eq, not_or] at hnot
      omega
    obtain ⟨em, hpush, hwf, hmessages, hnext⟩ :=
      EM.exists_push h.wellFormed hlt ⟨size, myaddr, toaddr, data⟩
    obtain ⟨sentMsgs, hincr, hsent⟩ := exists_increment hadmits h.sentMsgs
    refine ⟨{ o with sentMsgs := sentMsgs, emulnet := em }, ?_, ?_⟩
    · rw [hpush, hincr]
      rfl
    · exact ⟨hwf, hnext.trans h.nextid, by rw [hmessages, h.buff], hsent, h.recvMsgs⟩

/-- The network after the messages at the indices below `i` were looked at. -/
def received (time : Int) (myaddr : Address) (i : Nat) (en : EmulNet δ) : EmulNet δ :=
  let found := SwapRemove.scan (addressedTo myaddr) i en.buff
  { en with
    buff := found.2
    recvMsgs := count en.recvMsgs myaddr.id.toInt time found.1.length }

/-- The loop of `ENrecv` does on the object what `scan` does on the messages. -/
theorem exists_recvLoop (h : Represents o en) (hi : i ≤ en.buff.length)
    (hadmits : Admits myaddr.id.toInt time ∨ ∀ emsg ∈ en.buff, ¬ addressedTo myaddr emsg) :
    ∃ o', recvLoop time myaddr i o =
        some (o', (SwapRemove.scan (addressedTo myaddr) i en.buff).1) ∧
      Represents o' (received time myaddr i en) := by
  induction i generalizing o en with
  | zero =>
      refine ⟨o, rfl, h.wellFormed, h.nextid, h.buff, h.sentMsgs, fun j t => ?_⟩
      rw [h.recvMsgs]
      simp [received, SwapRemove.scan, count]
  | succ i ih =>
      have hlt : i < o.emulnet.messages.length := by
        rw [h.buff]
        omega
      obtain ⟨emsg, hget⟩ : ∃ emsg, en.buff[i]? = some emsg :=
        ⟨_, List.getElem?_eq_getElem (by omega)⟩
      have hslot : o.emulnet.slot i = some emsg := by
        rw [EM.slot_eq_messages h.wellFormed hlt, h.buff, hget]
      unfold recvLoop received SwapRemove.scan
      rw [hslot, hget]
      simp only [Option.bind_eq_bind, Option.bind_some]
      split
      case isTrue haddressed =>
        have hadmits' := hadmits.resolve_right fun hnone =>
          hnone emsg (List.mem_of_getElem? hget) haddressed
        obtain ⟨em, hremove, hwf, hmessages, hnext⟩ := EM.exists_removeAt h.wellFormed hlt
        obtain ⟨recvMsgs, hincr, hrecv⟩ := exists_increment hadmits' h.recvMsgs
        rw [h.buff] at hmessages
        have hnext' : Represents { o with recvMsgs := recvMsgs, emulnet := em }
            { en with
              buff := SwapRemove.swapRemove en.buff i
              recvMsgs := count en.recvMsgs myaddr.id.toInt time 1 } :=
          ⟨hwf, hnext.trans h.nextid, hmessages, h.sentMsgs, hrecv⟩
        have hlength : (SwapRemove.swapRemove en.buff i).length + 1 = en.buff.length :=
          (SwapRemove.swapRemove_perm (by omega : i < en.buff.length)).length_eq
        obtain ⟨o', hloop, hrep⟩ := ih hnext' (by simp only; omega) (Or.inl hadmits')
        refine ⟨o', ?_, hrep.wellFormed, hrep.nextid, hrep.buff, hrep.sentMsgs, fun j t => ?_⟩
        · rw [hremove, hincr, Option.bind_some, Option.bind_some, hloop]
          rfl
        · rw [hrep.recvMsgs, received, count_count, Int.add_comm]
          rfl
      case isFalse => exact ih h (by omega) hadmits

/-- Where the assertions do not admit the receiver, the first message for it stops the program. -/
theorem recvLoop_eq_none (h : o.emulnet.WellFormed) (hi : i ≤ o.emulnet.messages.length)
    (hadmits : ¬ Admits myaddr.id.toInt time) {j : Nat} {emsg : EnMsg δ} (hj : j < i)
    (hget : o.emulnet.messages[j]? = some emsg) (haddressed : addressedTo myaddr emsg = true) :
    recvLoop time myaddr i o = none := by
  induction i with
  | zero => omega
  | succ i ih =>
      have hslot : o.emulnet.slot i = some o.emulnet.messages[i] := by
        rw [EM.slot_eq_messages h (by omega)]
        exact List.getElem?_eq_getElem (by omega)
      unfold recvLoop
      rw [hslot]
      simp only [Option.bind_eq_bind, Option.bind_some]
      split
      case isTrue =>
        obtain ⟨em, hremove, -⟩ := EM.exists_removeAt h (i := i) (by omega)
        have hincr : increment o.recvMsgs myaddr.id.toInt time = none := if_neg hadmits
        rw [hremove, hincr]
        rfl
      case isFalse hnot =>
        have hne : j ≠ i := by
          rintro rfl
          rw [List.getElem?_eq_getElem (by omega), Option.some.injEq] at hget
          rw [hget] at hnot
          exact hnot haddressed
        exact ih (by omega) (by omega)

theorem exists_enRecv (h : Represents o en)
    (hadmits : Admits myaddr.id.toInt time ∨ ∀ emsg ∈ en.buff, ¬ addressedTo myaddr emsg) :
    ∃ o', o.enRecv time myaddr = some (o', (en.enRecv time myaddr).2) ∧
      Represents o' (en.enRecv time myaddr).1 := by
  have hlength : o.emulnet.currbuffsize.toNat = en.buff.length := by
    rw [h.currbuffsize]
    omega
  rw [Object.enRecv, hlength]
  exact exists_recvLoop h (le_refl _) hadmits

/-- One `ENrecv` hands over each message for the receiver once and leaves the others. -/
def ReceivesAll (o : Object δ) (time : Int) (myaddr : Address) : Prop :=
  ∃ o' handed, o.enRecv time myaddr = some (o', handed) ∧ o'.emulnet.WellFormed ∧
    handed.Perm (o.emulnet.messages.filter (addressedTo myaddr)) ∧
    o'.emulnet.messages.Perm (o.emulnet.messages.filter fun emsg => !addressedTo myaddr emsg) ∧
    ∀ emsg ∈ o'.emulnet.messages, addressedTo myaddr emsg = false

/-- `ENrecv` receives all, unless there is a message for a receiver that its assertions and the
counters do not admit. -/
theorem receivesAll_iff (h : o.emulnet.WellFormed) (time : Int) (myaddr : Address) :
    ReceivesAll o time myaddr ↔ Admits myaddr.id.toInt time ∨
      ∀ emsg ∈ o.emulnet.messages, ¬ addressedTo myaddr emsg := by
  constructor
  · rintro ⟨o', handed, hrecv, -⟩
    by_contra hstop
    obtain ⟨hadmits, hsome⟩ := not_or.mp hstop
    push Not at hsome
    obtain ⟨emsg, hmem, haddressed⟩ := hsome
    obtain ⟨j, hget⟩ := List.getElem?_of_mem hmem
    obtain ⟨hj, -⟩ := List.getElem?_eq_some_iff.mp hget
    rw [EM.length_messages] at hj
    have hnone : o.enRecv time myaddr = none :=
      recvLoop_eq_none h (by simp) hadmits hj hget haddressed
    rw [hnone] at hrecv
    cases hrecv
  · intro hadmits
    obtain ⟨o', hrecv, hrep⟩ := exists_enRecv (represents_abstract h) hadmits
    have hleft := enRecv_buff time myaddr o.abstract
    rw [← hrep.buff] at hleft
    refine ⟨o', _, hrecv, hrep.wellFormed, enRecv_delivered time myaddr o.abstract, hleft, ?_⟩
    intro emsg hmem
    simpa using (List.mem_filter.mp (hleft.mem_iff.mp hmem)).2

/-- Two messages for a node whose id is above `MAX_NODES`. -/
def outsider : Object Unit where
  sentMsgs := fun _ _ => 0
  recvMsgs := fun _ _ => 0
  emulnet := ⟨1, 2, 0, fun _ => ⟨4, ⟨1, 0⟩, ⟨1001, 0⟩, ()⟩⟩

/-- The assertion behind the first message loses the second one. -/
theorem not_receivesAll_outsider : ¬ ∀ (o : Object Unit) (time : Int) (myaddr : Address),
    o.emulnet.WellFormed → ReceivesAll o time myaddr := by
  intro hall
  obtain ⟨o', handed, hrecv, -⟩ := hall outsider 0 ⟨1001, 0⟩ ⟨by decide, by decide⟩
  have hnone : (outsider.enRecv 0 ⟨1001, 0⟩).isNone = true := by decide
  rw [hrecv] at hnone
  cases hnone

theorem receivesAll_iff_outsider :
    ReceivesAll outsider 0 ⟨7, 0⟩ ↔ Admits 7 0 ∨
      ∀ emsg ∈ outsider.emulnet.messages, ¬ addressedTo ⟨7, 0⟩ emsg :=
  receivesAll_iff ⟨by decide, by decide⟩ 0 ⟨7, 0⟩

end Object

end EmulNet

end CloudComputing
