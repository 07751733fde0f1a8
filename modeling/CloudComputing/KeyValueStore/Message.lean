import CloudComputing.Member

/-!
# Messages of the key-value store

`common.h` and `Message.{h,cpp}`.  Messages travel as text, fields separated by
`::` and not escaped.  An `enum` variable holds an `int`, so a type or replica
read from a message can be a number that names no constant.
-/

namespace CloudComputing.KeyValueStore

open Lib

/-- `enum ReplicaType` with the values a variable of it can also hold. -/
inductive ReplicaType where
  | primary
  | secondary
  | tertiary
  | other (n : Int32) (h : n ≠ 0 ∧ n ≠ 1 ∧ n ≠ 2)
deriving DecidableEq

namespace ReplicaType

def toInt32 : ReplicaType → Int32
  | primary => 0
  | secondary => 1
  | tertiary => 2
  | other n _ => n

/-- `static_cast<ReplicaType>`. -/
def ofInt32 (n : Int32) : ReplicaType :=
  if h₀ : n = 0 then primary
  else if h₁ : n = 1 then secondary
  else if h₂ : n = 2 then tertiary
  else other n ⟨h₀, h₁, h₂⟩

@[simp] theorem ofInt32_toInt32 (r : ReplicaType) : ofInt32 r.toInt32 = r := by
  cases r with
  | primary => rfl
  | secondary => rfl
  | tertiary => rfl
  | other n h => simp [toInt32, ofInt32, h]

end ReplicaType

/-- `enum MessageType`, likewise. -/
inductive MessageType where
  | create
  | read
  | update
  | delete
  | reply
  | readreply
  | other (n : Int32) (h : n ≠ 0 ∧ n ≠ 1 ∧ n ≠ 2 ∧ n ≠ 3 ∧ n ≠ 4 ∧ n ≠ 5)
deriving DecidableEq

namespace MessageType

def toInt32 : MessageType → Int32
  | create => 0
  | read => 1
  | update => 2
  | delete => 3
  | reply => 4
  | readreply => 5
  | other n _ => n

/-- `static_cast<MessageType>`. -/
def ofInt32 (n : Int32) : MessageType :=
  if h₀ : n = 0 then create
  else if h₁ : n = 1 then read
  else if h₂ : n = 2 then update
  else if h₃ : n = 3 then delete
  else if h₄ : n = 4 then reply
  else if h₅ : n = 5 then readreply
  else other n ⟨h₀, h₁, h₂, h₃, h₄, h₅⟩

@[simp] theorem ofInt32_toInt32 (t : MessageType) : ofInt32 t.toInt32 = t := by
  cases t with
  | other n h => simp [toInt32, ofInt32, h]
  | _ => rfl

end MessageType

/-- `class Message`.  A constructor that sets fewer fields leaves strings empty and the others
indeterminate. -/
structure Message where
  type : MessageType
  replica : ReplicaType
  key : Str
  value : Str
  fromAddr : Address
  transID : Int32
  success : Bool
deriving DecidableEq

namespace Message

def delimiter : Str := [':', ':']

/-- The part of the text in front of what the type decides. -/
def header (m : Message) : Str :=
  Decimal.toStr m.transID.toInt ++ delimiter ++ (m.fromAddr.getAddress ++ delimiter ++
    (Decimal.toStr m.type.toInt32.toInt ++ delimiter))

def toString (m : Message) : Str :=
  match m.type with
  | .create | .update =>
      m.header ++ (m.key ++ delimiter ++ (m.value ++ delimiter ++
        Decimal.toStr m.replica.toInt32.toInt))
  | .read | .delete => m.header ++ m.key
  | .reply => m.header ++ if m.success then ['1'] else ['0']
  | .readreply => m.header ++ m.value
  | .other _ _ => m.header

/-- The sixth field, if there is one. -/
def readReplica (uninit : ReplicaType) : Option Str → Option ReplicaType
  | some field => (Decimal.stoi field).map ReplicaType.ofInt32
  | none => some uninit

/-- The `switch` of `Message(string)` on the fields of the text; `uninit` is what `replica` holds
when it is not set. -/
def readFields (uninit : ReplicaType) (tuple : List Str) (type : MessageType)
    (fromAddr : Address) (transID : Int32) : Option Message :=
  let blank : Message := ⟨type, uninit, [], [], fromAddr, transID, false⟩
  match type with
  | .create | .update => do
      let key ← tuple[3]?
      let value ← tuple[4]?
      let replica ← readReplica uninit tuple[5]?
      return { blank with key := key, value := value, replica := replica }
  | .read | .delete => tuple[3]?.map fun key => { blank with key := key }
  | .reply => tuple[3]?.map fun field => { blank with success := field = ['1'] }
  | .readreply => tuple[3]?.map fun value => { blank with value := value }
  | .other _ _ => some blank

/-- `Message(string)`; there is no result when `stoi` or `at` throws. -/
def ofString (uninit : ReplicaType) (message : Str) : Option Message := do
  let tuple := Split.split delimiter message
  let transID ← Decimal.stoi (← tuple[0]?)
  let fromAddr ← Address.ofString (← tuple[1]?)
  let type ← Decimal.stoi (← tuple[2]?)
  readFields uninit tuple (MessageType.ofInt32 type) fromAddr transID

/-! ## Reading back what was sent -/

theorem delimiter_ne_nil : delimiter ≠ [] := by decide

theorem clean_of_no_colon {s : Str} (h : ':' ∉ s) : Split.Clean delimiter s := by
  refine Split.clean_pair_iff.mpr ⟨?_, ?_⟩
  · intro hsub
    exact h (hsub.subset (by simp))
  · intro hlast
    exact h (List.mem_of_getLast? hlast)

theorem clean_toStr (n : Int) : Split.Clean delimiter (Decimal.toStr n) :=
  clean_of_no_colon (Decimal.colon_not_mem_toStr n)

theorem clean_getAddress (a : Address) : Split.Clean delimiter a.getAddress := by
  exact Split.clean_pair_append (clean_toStr _) (Decimal.colon_not_mem_toStr _)
    (Decimal.toStr_ne_nil _)

/-- The header is cut into its three fields, whatever follows. -/
theorem split_header (m : Message) (s : Str) : Split.split delimiter (m.header ++ s) =
    Decimal.toStr m.transID.toInt :: m.fromAddr.getAddress ::
      Decimal.toStr m.type.toInt32.toInt :: Split.split delimiter s := by
  have hassoc : m.header ++ s = Decimal.toStr m.transID.toInt ++ delimiter ++
      (m.fromAddr.getAddress ++ delimiter ++
        (Decimal.toStr m.type.toInt32.toInt ++ delimiter ++ s)) := by
    simp only [header, List.append_assoc]
  rw [hassoc, Split.split_append delimiter_ne_nil (clean_toStr _),
    Split.split_append delimiter_ne_nil (clean_getAddress _),
    Split.split_append delimiter_ne_nil (clean_toStr _)]

theorem ofString_header (uninit : ReplicaType) (m : Message) (s : Str) :
    ofString uninit (m.header ++ s) =
      readFields uninit (Split.split delimiter (m.header ++ s)) m.type m.fromAddr m.transID := by
  unfold ofString
  rw [split_header]
  simp

theorem toString_eq (m : Message) : ∃ s, m.toString = m.header ++ s := by
  unfold toString
  split
  case h_7 => exact ⟨[], by simp⟩
  all_goals exact ⟨_, rfl⟩

theorem readFields_write {uninit : ReplicaType} {tuple : List Str} {type : MessageType}
    {fromAddr : Address} {transID : Int32} {m : Message}
    (htype : type = .create ∨ type = .update) :
    readFields uninit tuple type fromAddr transID = some m ↔
      ∃ key value replica, tuple[3]? = some key ∧ tuple[4]? = some value ∧
        readReplica uninit tuple[5]? = some replica ∧
        m = ⟨type, replica, key, value, fromAddr, transID, false⟩ := by
  have hread : readFields uninit tuple type fromAddr transID =
      tuple[3]?.bind fun key => tuple[4]?.bind fun value =>
        (readReplica uninit tuple[5]?).bind fun replica =>
          some ⟨type, replica, key, value, fromAddr, transID, false⟩ := by
    rcases htype with rfl | rfl <;> rfl
  simp only [hread, Option.bind_eq_some_iff, Option.some.injEq]
  constructor
  · rintro ⟨key, hkey, value, hvalue, replica, hreplica, rfl⟩
    exact ⟨key, value, replica, hkey, hvalue, hreplica, rfl⟩
  · rintro ⟨key, value, replica, hkey, hvalue, hreplica, rfl⟩
    exact ⟨key, hkey, value, hvalue, replica, hreplica, rfl⟩

theorem readFields_some {uninit : ReplicaType} {tuple : List Str} {type : MessageType}
    {fromAddr : Address} {transID : Int32} {m : Message}
    (h : readFields uninit tuple type fromAddr transID = some m) :
    m.type = type ∧ m.fromAddr = fromAddr ∧ m.transID = transID := by
  cases type with
  | create =>
      obtain ⟨_, _, _, -, -, -, rfl⟩ := (readFields_write (Or.inl rfl)).mp h
      exact ⟨rfl, rfl, rfl⟩
  | update =>
      obtain ⟨_, _, _, -, -, -, rfl⟩ := (readFields_write (Or.inr rfl)).mp h
      exact ⟨rfl, rfl, rfl⟩
  | read | delete | reply | readreply =>
      obtain ⟨_, -, rfl⟩ := Option.map_eq_some_iff.mp h
      exact ⟨rfl, rfl, rfl⟩
  | other n hn =>
      obtain rfl := Option.some.inj h
      exact ⟨rfl, rfl, rfl⟩

/-- Type, sender and transaction id of a message survive whatever key and value are. -/
theorem ofString_toString_some {uninit : ReplicaType} {m m' : Message}
    (h : ofString uninit m.toString = some m') :
    m'.type = m.type ∧ m'.fromAddr = m.fromAddr ∧ m'.transID = m.transID := by
  obtain ⟨s, hs⟩ := m.toString_eq
  rw [hs, ofString_header] at h
  exact readFields_some h

/-- The indeterminate field is all that can differ between two readings of a text. -/
theorem ofString_uninit {uninit : ReplicaType} {s : Str} {m : Message}
    (h : ofString uninit s = some m) (uninit' : ReplicaType) :
    ofString uninit' s = some m ∨ ofString uninit' s = some { m with replica := uninit' } := by
  unfold ofString at h ⊢
  simp only [Option.bind_eq_bind, Option.bind_eq_some_iff] at h
  obtain ⟨f₀, h₀, transID, h₁, f₁, h₂, fromAddr, h₃, f₂, h₄, type, h₅, h⟩ := h
  simp only [h₀, h₁, h₂, h₃, h₄, h₅, Option.bind_eq_bind, Option.bind_some]
  cases htype : MessageType.ofInt32 type with
  | create | update =>
      rw [htype, readFields_write (by simp)] at h
      obtain ⟨key, value, replica, hkey, hvalue, hreplica, rfl⟩ := h
      rw [readFields_write (by simp), readFields_write (by simp)]
      cases hfield : (Split.split delimiter s)[5]? with
      | none => exact Or.inr ⟨key, value, uninit', hkey, hvalue, rfl, rfl⟩
      | some field =>
          rw [hfield] at hreplica
          exact Or.inl ⟨key, value, replica, hkey, hvalue, hreplica, rfl⟩
  | read | delete | reply | readreply =>
      rw [htype] at h
      obtain ⟨field, hfield, rfl⟩ := Option.map_eq_some_iff.mp h
      exact Or.inr (by simp [readFields, hfield])
  | other n hn =>
      rw [htype] at h
      obtain rfl := Option.some.inj h
      exact Or.inr rfl

/-- The texts in a message are free of `::`, and do not end in `:` where more text follows. -/
def Sendable (m : Message) : Prop :=
  match m.type with
  | .create | .update => Split.Clean delimiter m.key ∧ Split.Clean delimiter m.value
  | .read | .delete => ¬ delimiter <:+: m.key
  | .reply => True
  | .readreply => ¬ delimiter <:+: m.value
  | .other _ _ => True

theorem sendable_reply {m : Message} (h : m.type = .reply) : m.Sendable := by
  unfold Sendable
  rw [h]
  trivial

/-- What the text of a message says: the fields of its type. -/
def received (uninit : ReplicaType) (m : Message) : Message :=
  let blank : Message := ⟨m.type, uninit, [], [], m.fromAddr, m.transID, false⟩
  match m.type with
  | .create | .update => { blank with key := m.key, value := m.value, replica := m.replica }
  | .read | .delete => { blank with key := m.key }
  | .reply => { blank with success := m.success }
  | .readreply => { blank with value := m.value }
  | .other _ _ => blank

theorem type_received {uninit : ReplicaType} {m : Message} : (m.received uninit).type = m.type := by
  unfold received
  split <;> rfl

/-- A sendable message is read back as it was written. -/
theorem ofString_toString (uninit : ReplicaType) {m : Message} (h : m.Sendable) :
    ofString uninit m.toString = some (m.received uninit) := by
  obtain ⟨type, replica, key, value, fromAddr, transID, success⟩ := m
  unfold Sendable at h
  unfold toString received
  cases type with
  | create | update =>
      simp only at h ⊢
      rw [ofString_header, split_header, Split.split_append delimiter_ne_nil h.1,
        Split.split_append delimiter_ne_nil h.2,
        Split.split_eq_singleton delimiter_ne_nil ((clean_toStr _).not_mem_sub delimiter_ne_nil)]
      simp [readFields, readReplica]
  | read | delete | readreply =>
      simp only at h ⊢
      rw [ofString_header, split_header, Split.split_eq_singleton delimiter_ne_nil h]
      simp [readFields]
  | reply =>
      simp only
      cases success <;> (rw [ofString_header, split_header]; rfl)
  | other n hn =>
      simp only
      rw [← List.append_nil (header _), ofString_header]
      rfl

/-- What is read from a message with key and value was cut off by a delimiter behind it. -/
theorem clean_of_ofString {uninit : ReplicaType} {m m' : Message}
    (htype : m.type = .create ∨ m.type = .update) (h : ofString uninit m.toString = some m') :
    Split.Clean delimiter m'.key ∧ Split.Clean delimiter m'.value := by
  have htext : m.toString = m.header ++ (m.key ++ delimiter ++ (m.value ++ delimiter ++
      Decimal.toStr m.replica.toInt32.toInt)) := by
    unfold toString
    rcases htype with h | h <;> rw [h]
  rw [htext, ofString_header, readFields_write htype, ← htext] at h
  obtain ⟨key, value, replica, hkey, hvalue, -, rfl⟩ := h
  -- the text has at least six fields
  have hlen : 6 ≤ (Split.split delimiter m.toString).length := by
    rw [htext, split_header, List.length_cons, List.length_cons, List.length_cons]
    have h₁ := Split.length_split_append (c := ':') m.key
      (m.value ++ delimiter ++ Decimal.toStr m.replica.toInt32.toInt)
    have h₂ := Split.length_split_append (c := ':') m.value
      (Decimal.toStr m.replica.toInt32.toInt)
    have h₃ := List.length_pos_of_ne_nil
      (Split.split_ne_nil delimiter_ne_nil (Decimal.toStr m.replica.toInt32.toInt))
    unfold delimiter at h₁ h₂ h₃ ⊢
    omega
  obtain ⟨_, rfl⟩ := List.getElem?_eq_some_iff.mp hkey
  obtain ⟨_, rfl⟩ := List.getElem?_eq_some_iff.mp hvalue
  exact ⟨Split.clean_of_split_getElem delimiter_ne_nil (by omega),
    Split.clean_of_split_getElem delimiter_ne_nil (by omega)⟩

/-! ## The domain of the codec -/

/-- Every field that the type of `m` carries is in `m'` as well. -/
def Recovers (m m' : Message) : Prop :=
  m'.type = m.type ∧ m'.fromAddr = m.fromAddr ∧ m'.transID = m.transID ∧
    match m.type with
    | .create | .update => m'.key = m.key ∧ m'.value = m.value ∧ m'.replica = m.replica
    | .read | .delete => m'.key = m.key
    | .reply => m'.success = m.success
    | .readreply => m'.value = m.value
    | .other _ _ => True

theorem recovers_received (uninit : ReplicaType) (m : Message) :
    m.Recovers (m.received uninit) := by
  obtain ⟨type, replica, key, value, fromAddr, transID, success⟩ := m
  cases type <;> simp [Recovers, received]

/-- The one text of a message without a value was cut off nowhere. -/
theorem not_sub_of_ofString {uninit : ReplicaType} {m m' : Message} {s : Str}
    (h : ofString uninit (m.header ++ s) = some m') :
    (m.type = .read ∨ m.type = .delete → ¬ delimiter <:+: m'.key) ∧
      (m.type = .readreply → ¬ delimiter <:+: m'.value) := by
  rw [ofString_header, split_header] at h
  have hfield : ∀ {field : Str}, (Split.split delimiter s)[0]? = some field →
      ¬ delimiter <:+: field :=
    fun hget => Split.not_sub_of_mem_split delimiter_ne_nil (List.mem_of_getElem? hget)
  constructor
  · intro htype
    rcases htype with htype | htype
    all_goals
      rw [htype] at h
      obtain ⟨field, hget, rfl⟩ := Option.map_eq_some_iff.mp h
      exact hfield (by simpa using hget)
  · intro htype
    rw [htype] at h
    obtain ⟨field, hget, rfl⟩ := Option.map_eq_some_iff.mp h
    exact hfield (by simpa using hget)

/-- Only a sendable message is read back as it was written. -/
theorem sendable_of_recovers {uninit : ReplicaType} {m m' : Message}
    (h : ofString uninit m.toString = some m') (hm : m.Recovers m') : m.Sendable := by
  obtain ⟨-, -, -, hfields⟩ := hm
  unfold Sendable
  unfold toString at h
  cases htype : m.type with
  | create | update =>
      rw [htype] at hfields
      have hclean := clean_of_ofString (m := m) (by simp [htype]) h
      rw [hfields.1, hfields.2.1] at hclean
      exact hclean
  | read | delete =>
      rw [htype] at h hfields
      have hsub := (not_sub_of_ofString h).1 (by simp [htype])
      rwa [hfields] at hsub
  | readreply =>
      rw [htype] at h hfields
      have hsub := (not_sub_of_ofString h).2 htype
      rwa [hfields] at hsub
  | reply => trivial
  | other n hn => trivial

/-- `Message(m.toString())` recovers the fields of every type of message on exactly this domain. -/
theorem recovered_iff (uninit : ReplicaType) (m : Message) :
    (∃ m', ofString uninit m.toString = some m' ∧ m.Recovers m') ↔
      (m.type = .create ∨ m.type = .update →
        (¬ delimiter <:+: m.key ∧ m.key.getLast? ≠ some ':') ∧
          ¬ delimiter <:+: m.value ∧ m.value.getLast? ≠ some ':') ∧
      (m.type = .read ∨ m.type = .delete → ¬ delimiter <:+: m.key) ∧
      (m.type = .readreply → ¬ delimiter <:+: m.value) := by
  have hsendable : (∃ m', ofString uninit m.toString = some m' ∧ m.Recovers m') ↔
      m.Sendable := by
    constructor
    · intro ⟨m', h, hm⟩
      exact sendable_of_recovers h hm
    · intro h
      exact ⟨_, ofString_toString uninit h, recovers_received uninit m⟩
  rw [hsendable]
  unfold Sendable
  unfold delimiter
  cases m.type <;> simp [Split.clean_pair_iff]

end Message

end CloudComputing.KeyValueStore
