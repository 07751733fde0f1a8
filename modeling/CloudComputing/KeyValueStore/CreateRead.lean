import CloudComputing.KeyValueStore.ReadBack

/-!
# Create, then read

A client creates a key, and later one reads it.  Neither the two text formats nor
the answer escapes anything, so an empty value and one with a colon do not come
back.  `ring_changed` takes a ring for changed that is the same, so every tick
rewrites every entry, its text grows, and after enough ticks the answers of the
replicas no longer fit into a message.
-/

namespace CloudComputing.KeyValueStore

open Lib Relation

namespace World

variable {R : SortedRing} {hash : Str → Nat} {group : Group R} {key value : Str}
  {w₁ w₂ w₃ w₄ v₁ v₃ : World} {c r : Address} {u u' : ReplicaType} {now : Int32}

/-- The three replicas answer the read `t` in the next tick, and in the one after its coordinator
logs a success with the value. -/
def ComesBack (hash : Str → Nat) (group : Group R) (r : Address) (key value : Str) (t : Int32) :
    World → Prop :=
  Next hash group (Request.Spares key) fun w =>
    AnsweredByAll hash R r key value t w ∧
      Next hash group (Request.Spares key) (fun w' =>
        .logged ⟨r, true, .read, true, t, key, value, w.currtime⟩ ∈ w'.trace) w

theorem create_parts (h₁ : Ticks hash group (Request.Spares key) initial w₁)
    (hcreate : Called hash group (Request.Spares key) (c, u, .create key value) w₁ v₁ w₂)
    (hparse : (Request.create key value).Parsable) :
    Untouched key w₁ ∧ (Orderly hash group w₂ ∧ Rested group w₂) ∧ ∃ w v,
      CallParts hash group (Request.Spares key) (c, u, .create key value) w₁ w v₁ v w₂ := by
  obtain ⟨ho, hr, hu⟩ := untouched_ticks (fun _ hr => hr) h₁
  have hparse' : ∀ r', (Request.Spares key r' ∨ r' = .create key value) → r'.Parsable := by
    intro r' hr'
    rcases hr' with hr' | rfl
    · exact hr'.1
    · exact hparse
  obtain ⟨hfollows, hr₂, -⟩ := rested_ticked hparse' ho hr hcreate.ticked
  exact ⟨hu, ⟨ho.path hparse' hfollows.path, hr₂⟩,
    callParts (fun _ hr => hr.1) ho hr hcreate hparse⟩

theorem arriving_ticks (h₁ : Ticks hash group (Request.Spares key) initial w₁)
    (hcreate : Called hash group (Request.Spares key) (c, u, .create key value) w₁ v₁ w₂)
    (hparse : (Request.create key value).Parsable)
    (hfits : Fits ((Request.create key value).message c u v₁.nextTransID.gTransID).toString)
    (h₂ : Ticks hash group (Request.Spares key) w₂ w₃) :
    Orderly hash group w₃ ∧ Rested group w₃ ∧ Arriving hash R key value w₃ := by
  obtain ⟨hu, ⟨ho, hr⟩, w, v, hparts⟩ := create_parts h₁ hcreate hparse
  have harriving := arriving_create (fun _ hr => hr) hu hparts hparse hfits
  exact harriving.ticks (fun _ hr => hr) ho hr h₂

/-! ## However many ticks later -/

/-- A value whose creation has been logged comes back, as long as the answers with the entries,
which grow with every tick, fit into a message. -/
theorem durable_of_fits (hkey : Plain key) (hvalue : value ≠ []) (hcolon : ':' ∉ value)
    (h₁ : Ticks hash group (Request.Spares key) initial w₁)
    (hcreate : Called hash group (Request.Spares key) (c, u, .create key value) w₁ v₁ w₂)
    (h₂ : Ticks hash group (Request.Spares key) w₂ w₃)
    (hsuccess : .logged ⟨c, true, .create, true, v₁.nextTransID.gTransID, key, value, now⟩ ∈
      w₃.trace)
    (hread : Called hash group (Request.Spares key) (r, u', .read key) w₃ v₃ w₄)
    (hfits : Fits (readMessage r u' key v₃.nextTransID.gTransID).toString)
    (hreplies : ∀ a ∈ R.replicas hash key, ReplyFits a r key v₃.nextTransID.gTransID w₄) :
    ComesBack hash group r key value v₃.nextTransID.gTransID w₄ := by
  have hparse : (Request.create key value).Parsable := ⟨hkey, hcolon⟩
  obtain ⟨-, ⟨ho, hr⟩, w, v, hparts⟩ := create_parts h₁ hcreate hparse
  have hcreated := fits_of_verdict (fun _ hr => hr.1) hparts ho hr h₂ hsuccess rfl rfl
  obtain ⟨ho₃, hr₃, harriving⟩ := arriving_ticks h₁ hcreate hparse hcreated h₂
  exact read_back (fun _ hr => hr) hkey hvalue ho₃ hr₃ harriving hread hfits hreplies

/-! ## A key of three nodes -/

namespace CreateRun

def createTurn (value : Str) (w : World) : Option World :=
  w.sampleTurn [(sampleNode 1, .primary, .create ['k'] value)]

def readTurn (w : World) : Option World :=
  w.sampleTurn [(sampleNode 2, .primary, .read ['k'])]

/-- The worlds after five ticks: the key is created in the first, the success is logged in the
third, and the key is read in the fourth. -/
structure Stages where
  created : World
  handled : World
  judged : World
  reading : World
  answered : World

def stages (value : Str) : Option Stages := do
  let created ← createTurn value initial
  let handled ← created.sampleTurn []
  let judged ← handled.sampleTurn []
  let reading ← readTurn judged
  let answered ← reading.sampleTurn []
  return ⟨created, handled, judged, reading, answered⟩

namespace Stages

def worlds (s : Stages) : List World := [s.created, s.handled, s.judged, s.reading, s.answered]

def Logged (value : Str) (s : Stages) : Prop :=
  (∀ w ∈ s.worlds, w.transID < 2 ^ 31) ∧
    .logged ⟨sampleNode 1, true, .create, true, s.created.gTransID, ['k'], value, 2⟩ ∈
      s.judged.trace

def Answerable (s : Stages) : Prop :=
  Fits (readMessage (sampleNode 2) .primary ['k'] s.reading.gTransID).toString ∧
    ∀ a ∈ threeRing.sortedRing.replicas sampleHash ['k'],
      ReplyFits a (sampleNode 2) ['k'] s.reading.gTransID s.reading

instance {s : Stages} : Decidable (s.Logged value) := inferInstanceAs (Decidable (_ ∧ _))

instance {s : Stages} : Decidable s.Answerable := inferInstanceAs (Decidable (_ ∧ _))

end Stages

theorem turns_of_stages {s : Stages} (h : stages value = some s) :
    createTurn value initial = some s.created ∧ s.created.sampleTurn [] = some s.handled ∧
      s.handled.sampleTurn [] = some s.judged ∧ readTurn s.judged = some s.reading ∧
      s.reading.sampleTurn [] = some s.answered := by
  unfold stages at h
  simp only [Option.bind_eq_bind, Option.bind_eq_some_iff, Option.pure_def,
    Option.some.injEq] at h
  obtain ⟨created, h₁, handled, h₂, judged, h₃, reading, h₄, answered, h₅, rfl⟩ := h
  exact ⟨h₁, h₂, h₃, h₄, h₅⟩

theorem run_of_stages {s : Stages} (h : stages value = some s) (hlogged : s.Logged value) :
    ∃ v₁ v₃, Called sampleHash threeGroup (Request.Spares ['k'])
        (sampleNode 1, .primary, .create ['k'] value) initial v₁ s.created ∧
      v₁.nextTransID.gTransID = s.created.gTransID ∧
      Ticks sampleHash threeGroup (Request.Spares ['k']) s.created s.judged ∧
      Called sampleHash threeGroup (Request.Spares ['k'])
        (sampleNode 2, .primary, .read ['k']) s.judged v₃ s.reading ∧
      v₃.nextTransID.gTransID = s.reading.gTransID := by
  obtain ⟨h₁, h₂, h₃, h₄, -⟩ := turns_of_stages h
  have hlt : ∀ w ∈ s.worlds, w.transID < 2 ^ 31 := hlogged.1
  have hmember₁ : sampleNode 1 ∈ threeGroup.addresses := by decide
  have hmember₂ : sampleNode 2 ∈ threeGroup.addresses := by decide
  obtain ⟨v₁, hcreate, hid₁⟩ :=
    called_sample h₁ hmember₁ (hlt s.created (by simp [Stages.worlds]))
  obtain ⟨v₃, hread, hid₃⟩ :=
    called_sample h₄ hmember₂ (hlt s.reading (by simp [Stages.worlds]))
  have hticks : Ticks sampleHash threeGroup (Request.Spares ['k']) s.created s.judged :=
    .tail (.single (ticked_sample h₂ (hlt s.handled (by simp [Stages.worlds]))))
      (ticked_sample h₃ (hlt s.judged (by simp [Stages.worlds])))
  exact ⟨v₁, v₃, hcreate, hid₁, hticks, hread, hid₃⟩

def longValue : Str := List.replicate 3966 'v'

theorem longValue_ne_nil : longValue ≠ [] := by
  apply List.ne_nil_of_length_pos
  rw [longValue, List.length_replicate]
  omega

theorem colon_not_mem_longValue : ':' ∉ longValue := fun h =>
  absurd (List.eq_of_mem_replicate h) (by decide)

theorem stages_longValue : ∃ s, stages longValue = some s ∧ s.Logged longValue ∧
    s.answered.net = [] := by
  have hrun : (stages longValue).any
      (fun s => s.Logged longValue ∧ s.answered.net = []) = true := by decide +kernel
  obtain ⟨s, hs, hand⟩ := (Option.any_eq_true _ _).mp hrun
  exact ⟨s, hs, of_decide_eq_true hand⟩

end CreateRun

open CreateRun

/-- After the creation of a long value has been logged, nothing answers a read. -/
theorem long_value_lost : ¬ ∀ (R : SortedRing) (hash : Str → Nat) (group : Group R)
    (key value : Str) (c r : Address) (u u' : ReplicaType) (now : Int32)
    (w₁ v₁ w₂ w₃ v₃ w₄ : World), Plain key → value ≠ [] → ':' ∉ value →
    Ticks hash group (Request.Spares key) initial w₁ →
    Called hash group (Request.Spares key) (c, u, .create key value) w₁ v₁ w₂ →
    Ticks hash group (Request.Spares key) w₂ w₃ →
    .logged ⟨c, true, .create, true, v₁.nextTransID.gTransID, key, value, now⟩ ∈ w₃.trace →
    Called hash group (Request.Spares key) (r, u', .read key) w₃ v₃ w₄ →
    ComesBack hash group r key value v₃.nextTransID.gTransID w₄ := by
  intro hclaim
  obtain ⟨s, hs, hlogged, hnet⟩ := stages_longValue
  obtain ⟨v₁, v₃, hcreate, hid₁, hticks, hread, -⟩ := run_of_stages hs hlogged
  have hback := hclaim threeRing.sortedRing sampleHash threeGroup ['k'] longValue (sampleNode 1)
    (sampleNode 2) .primary .primary 2 initial v₁ s.created s.judged v₃ s.reading (by decide)
    longValue_ne_nil colon_not_mem_longValue .refl hcreate hticks (hid₁ ▸ hlogged.2) hread
  obtain ⟨w, hturn, hanswers⟩ := hback (sampleRound []) (sampleRound_over (by simp))
  obtain ⟨-, -, -, -, hanswered⟩ := turns_of_stages hs
  obtain rfl := Option.some.inj (hanswered.symm.trans hturn)
  have hlt : s.answered.transID < 2 ^ 31 := hlogged.1 s.answered (by simp [Stages.worlds])
  obtain ⟨n₀, n₁, n₂, hfind, -⟩ := replicas_eq sampleHash threeRing.sortedRing ['k']
  obtain ⟨text, -, hsent⟩ := (hanswers hlt).1 n₀.nodeAddress (by
    unfold SortedRing.replicas
    simp [hfind])
  rw [hnet] at hsent
  cases hsent

theorem durable_of_fits_threeNodes : ∃ s, stages ['v'] = some s ∧
    ComesBack sampleHash threeGroup (sampleNode 2) ['k'] ['v'] s.reading.gTransID s.reading := by
  have hrun : (stages ['v']).any (fun s => s.Logged ['v'] ∧ s.Answerable) = true := by
    decide +kernel
  obtain ⟨s, hs, hand⟩ := (Option.any_eq_true _ _).mp hrun
  obtain ⟨hlogged, hfits, hreplies⟩ := of_decide_eq_true hand
  obtain ⟨v₁, v₃, hcreate, hid₁, hticks, hread, hid₃⟩ := run_of_stages hs hlogged
  rw [← hid₃] at hfits hreplies
  refine ⟨s, hs, ?_⟩
  rw [← hid₃]
  exact durable_of_fits (by decide) (by decide) (by decide) .refl hcreate hticks
    (hid₁ ▸ hlogged.2) hread hfits hreplies

/-! ## Every value that the formats can carry -/

/-- With messages that fit, a value comes back that is not empty and has no colon, and nothing is
thrown on the way. -/
theorem create_then_read (hkey : Plain key) (hvalue : value ≠ []) (hcolon : ':' ∉ value)
    (h₁ : Ticks hash group (Request.Spares key) initial w₁)
    (hcreate : Called hash group (Request.Spares key) (c, u, .create key value) w₁ v₁ w₂)
    (hcreated : Fits ((Request.create key value).message c u v₁.nextTransID.gTransID).toString)
    (h₂ : Ticks hash group (Request.Spares key) w₂ w₃)
    (hread : Called hash group (Request.Spares key) (r, u', .read key) w₃ v₃ w₄)
    (hfits : Fits (readMessage r u' key v₃.nextTransID.gTransID).toString)
    (hreplies : ∀ a ∈ R.replicas hash key, ReplyFits a r key v₃.nextTransID.gTransID w₄) :
    (∀ w ∈ [w₁, w₂, w₃, w₄], ∀ round : Round,
      round.Over hash group (fun r => r.Spares key ∨ r = .create key value) →
        ∃ w', w.turn hash group.addresses round = some w') ∧
      ComesBack hash group r key value v₃.nextTransID.gTransID w₄ := by
  have hparse : (Request.create key value).Parsable := ⟨hkey, hcolon⟩
  obtain ⟨ho₁, hr₁, -⟩ := untouched_ticks (fun _ hr => hr) h₁
  obtain ⟨-, ⟨ho₂, hr₂⟩, -⟩ := create_parts h₁ hcreate hparse
  obtain ⟨ho₃, hr₃, harriving⟩ := arriving_ticks h₁ hcreate hparse hcreated h₂
  have hspare : ∀ r', (Request.Spares key r' ∨ r' = .read key) → r'.Parsable :=
    fun r' hr' => (spares_or (fun _ hr => hr) (spares_read hkey) r' hr').1
  obtain ⟨hfollows, hr₄, -⟩ := rested_ticked hspare ho₃ hr₃ hread.ticked
  have ho₄ := ho₃.path hspare hfollows.path
  constructor
  · have hparse' : ∀ r', (Request.Spares key r' ∨ r' = .create key value) → r'.Parsable := by
      intro r' hr'
      rcases hr' with hr' | rfl
      · exact hr'.1
      · exact hparse
    have hrested : ∀ w ∈ [w₁, w₂, w₃, w₄], Orderly hash group w ∧ Rested group w := by
      simp [ho₁, hr₁, ho₂, hr₂, ho₃, hr₃, ho₄, hr₄]
    intro w hw round hover
    exact turn_isSome hparse' (hrested w hw).1 (hrested w hw).2 hover
  · exact read_back (fun _ hr => hr) hkey hvalue ho₃ hr₃ harriving hread hfits hreplies

namespace CreateRun

def Stages.Sent (value : Str) (s : Stages) : Prop :=
  Fits ((Request.create ['k'] value).message (sampleNode 1) .primary s.created.gTransID).toString

instance {s : Stages} : Decidable (s.Sent value) := inferInstanceAs (Decidable (Fits _))

end CreateRun

/-- The answers with a value that has a colon make `stoi` throw at the node that reads. -/
theorem colon_value_throws : ¬ ∀ (R : SortedRing) (hash : Str → Nat) (group : Group R)
    (key value : Str) (c r : Address) (u u' : ReplicaType) (w₁ v₁ w₂ w₃ v₃ w₄ : World),
    Ticks hash group (Request.Spares key) initial w₁ →
    Called hash group (Request.Spares key) (c, u, .create key value) w₁ v₁ w₂ →
    Fits ((Request.create key value).message c u v₁.nextTransID.gTransID).toString →
    Ticks hash group (Request.Spares key) w₂ w₃ →
    Called hash group (Request.Spares key) (r, u', .read key) w₃ v₃ w₄ →
    Fits (readMessage r u' key v₃.nextTransID.gTransID).toString →
    (∀ a ∈ R.replicas hash key, ReplyFits a r key v₃.nextTransID.gTransID w₄) →
    (∀ w ∈ [w₁, w₂, w₃, w₄], ∀ round : Round,
      round.Over hash group (fun r => r.Spares key ∨ r = .create key value) →
        ∃ w', w.turn hash group.addresses round = some w') ∧
      ComesBack hash group r key value v₃.nextTransID.gTransID w₄ := by
  intro hclaim
  have hrun : (stages "a:b".toList).any (fun s => s.Logged "a:b".toList ∧ s.Sent "a:b".toList ∧
      s.Answerable ∧ (s.answered.sampleTurn []).isNone) = true := by decide +kernel
  obtain ⟨s, hs, hand⟩ := (Option.any_eq_true _ _).mp hrun
  obtain ⟨hlogged, hsent, ⟨hfits, hreplies⟩, hthrown⟩ := of_decide_eq_true hand
  obtain ⟨v₁, v₃, hcreate, hid₁, hticks, hread, hid₃⟩ := run_of_stages hs hlogged
  rw [← hid₃] at hfits hreplies
  unfold Stages.Sent at hsent
  rw [← hid₁] at hsent
  obtain ⟨-, hback⟩ := hclaim threeRing.sortedRing sampleHash threeGroup ['k'] "a:b".toList
    (sampleNode 1) (sampleNode 2) .primary .primary initial v₁ s.created s.judged v₃ s.reading
    .refl hcreate hsent hticks hread hfits hreplies
  have hover : (sampleRound []).Over sampleHash threeGroup (Request.Spares ['k']) :=
    sampleRound_over (by simp)
  obtain ⟨w, hturn, hanswers⟩ := hback (sampleRound []) hover
  obtain ⟨-, -, -, -, hanswered⟩ := turns_of_stages hs
  obtain rfl := Option.some.inj (hanswered.symm.trans hturn)
  have hlt : s.answered.transID < 2 ^ 31 := hlogged.1 s.answered (by simp [Stages.worlds])
  obtain ⟨w', hturn', -⟩ := (hanswers hlt).2 (sampleRound []) hover
  unfold sampleTurn at hthrown
  rw [hturn'] at hthrown
  cases hthrown

theorem create_then_read_threeNodes : ∃ s, stages ['v'] = some s ∧
    ComesBack sampleHash threeGroup (sampleNode 2) ['k'] ['v'] s.reading.gTransID s.reading := by
  have hrun : (stages ['v']).any
      (fun s => s.Logged ['v'] ∧ s.Sent ['v'] ∧ s.Answerable) = true := by decide +kernel
  obtain ⟨s, hs, hand⟩ := (Option.any_eq_true _ _).mp hrun
  obtain ⟨hlogged, hsent, hfits, hreplies⟩ := of_decide_eq_true hand
  obtain ⟨v₁, v₃, hcreate, hid₁, hticks, hread, hid₃⟩ := run_of_stages hs hlogged
  rw [← hid₃] at hfits hreplies
  unfold Stages.Sent at hsent
  rw [← hid₁] at hsent
  refine ⟨s, hs, ?_⟩
  rw [← hid₃]
  exact (create_then_read (by decide) (by decide) (by decide) .refl hcreate hsent hticks hread
    hfits hreplies).2

end World

end CloudComputing.KeyValueStore
