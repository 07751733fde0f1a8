import CloudComputing.KeyValueStore.Completion
import CloudComputing.KeyValueStore.Delivery
import CloudComputing.KeyValueStore.Rotation

/-!
# Stabilization of one key

What every survivor sends about a key when the ring changes from `R` to `R'`,
and what all of them together have done before anything is delivered.
-/

namespace CloudComputing.KeyValueStore

open Lib Relation

/-- What a survivor does about a key: does it keep its entry, and whom does it send copies. -/
inductive Plan (hash : Str → Nat) (R : ProperRing) (R' : SortedRing) (key : Str) (self : Address) :
    Bool → List Copy → Prop
  | stranger (n₀ n₁ n₂ : Node) (hnew : findNodes hash key R'.nodes = [n₀, n₁, n₂])
      (h₀ : n₀.nodeAddress ≠ self) (h₁ : n₁.nodeAddress ≠ self) (h₂ : n₂.nodeAddress ≠ self) :
      Plan hash R R' key self false (Copy.ofStranger n₀ n₁ n₂)
  | primary (n₀ n₁ n₂ o₀ o₁ o₂ : Node) (hnew : findNodes hash key R'.nodes = [n₀, n₁, n₂])
      (hold : findNodes hash key R.nodes = [o₀, o₁, o₂]) (hself : n₀.nodeAddress = self) :
      Plan hash R R' key self true (Copy.ofPrimary n₁ n₂ o₁ o₂)
  | secondary (n₀ n₁ n₂ o₀ o₁ o₂ oldPred : Node)
      (hnew : findNodes hash key R'.nodes = [n₀, n₁, n₂])
      (hold : findNodes hash key R.nodes = [o₀, o₁, o₂]) (hself : n₁.nodeAddress = self)
      (hpred : oldPred ∈ R.nodes) :
      Plan hash R R' key self true (Copy.ofSecondary n₁ o₁ n₀ oldPred)
  | tertiary (n₀ n₁ n₂ oldPred₂ oldPred₁ : Node)
      (hnew : findNodes hash key R'.nodes = [n₀, n₁, n₂]) (hself : n₂.nodeAddress = self)
      (hpred₂ : oldPred₂ ∈ R.nodes) (hpred₁ : oldPred₁ ∈ R.nodes) :
      Plan hash R R' key self true (Copy.ofTertiary n₀ oldPred₂ n₁ oldPred₁)

theorem Plan.copy_type {hash : Str → Nat} {R : ProperRing} {R' : SortedRing} {key : Str}
    {self : Address} {kept : Bool} {copies : List Copy} (h : Plan hash R R' key self kept copies)
    {c : Copy}
    (hc : c ∈ copies) : c.type = .create ∨ c.type = .update := by
  cases h with
  | stranger => exact Or.inl (Copy.type_ofStranger hc)
  | primary => exact Copy.type_ofPrimary hc
  | secondary => exact Or.inl (Copy.type_ofSecondary hc)
  | tertiary => exact Or.inl (Copy.type_ofTertiary hc)

theorem Plan.kept_of_mem {hash : Str → Nat} {R : ProperRing} {R' : SortedRing} {key : Str}
    {n : Node} {kept : Bool} {copies : List Copy}
    (h : Plan hash R R' key n.nodeAddress kept copies) (hn : n ∈ findNodes hash key R'.nodes) :
    kept = true := by
  cases h with
  | stranger n₀ n₁ n₂ hnew h₀ h₁ h₂ =>
      rw [hnew] at hn
      simp only [List.mem_cons, List.not_mem_nil, or_false] at hn
      rcases hn with rfl | rfl | rfl
      · exact absurd rfl h₀
      · exact absurd rfl h₁
      · exact absurd rfl h₂
  | primary | secondary | tertiary => rfl

theorem Plan.copy_toAddr {hash : Str → Nat} {R : ProperRing} {R' : SortedRing} {key : Str}
    {self : Address} {kept : Bool} {copies : List Copy} (h : Plan hash R R' key self kept copies)
    {c : Copy} (hc : c ∈ copies) : ∃ n ∈ findNodes hash key R'.nodes, n.nodeAddress = c.toAddr := by
  cases h with
  | stranger n₀ n₁ n₂ hnew =>
      simp only [Copy.ofStranger, List.mem_cons, List.not_mem_nil, or_false] at hc
      rcases hc with rfl | rfl | rfl <;> exact ⟨_, by rw [hnew]; simp, rfl⟩
  | primary n₀ n₁ n₂ o₀ o₁ o₂ hnew =>
      rcases Copy.toAddr_ofPrimary hc with h | h <;> exact ⟨_, by rw [hnew]; simp, h.symm⟩
  | secondary n₀ n₁ n₂ o₀ o₁ o₂ oldPred hnew =>
      rcases Copy.toAddr_ofSecondary hc with h | h <;> exact ⟨_, by rw [hnew]; simp, h.symm⟩
  | tertiary n₀ n₁ n₂ oldPred₂ oldPred₁ hnew =>
      rcases Copy.toAddr_ofTertiary hc with h | h <;> exact ⟨_, by rw [hnew]; simp, h.symm⟩

namespace World

variable {hash : Str → Nat} {R : ProperRing} {R' : SortedRing} {w w' : World} {self a b : Address}
  {key value k text : Str} {n : Node}

def copyPacket (self : Address) (key value : Str) (c : Copy) (t : Int32) : Packet :=
  ⟨self, c.toAddr, (c.message self key value t).toString⟩

/-- One turn of the loop, for the key it is about. -/
structure Turned (hash : Str → Nat) (R : ProperRing) (R' : SortedRing) (server : Address)
    (key value : Str) (w w' : World) : Prop where
  others : ∀ b, b ≠ server → w'.node b = w.node b
  node : w'.node server = { w.node server with ht := (w'.node server).ht }
  old : ∀ p ∈ w.net, p ∈ w'.net
  plan : ∃ kept copies, Plan hash R R' key server kept copies ∧
    (∀ p ∈ w'.net, p ∈ w.net ∨ ∃ c ∈ copies, ∃ t, p = copyPacket server key value c t) ∧
    (∀ c ∈ copies, ∃ t, copyPacket server key value c t ∈ w'.net) ∧
    (kept = true → ∃ text, (w'.node server).ht.get? key = some text ∧
      ∀ v, Decodes value v → Decodes text v)

theorem turned_rewrite {copies : List Copy} {replica : ReplicaType}
    (hvalue : (w.node self).ht.get? key = some value)
    (hplan : Plan hash R R' key self true copies) :
    Turned hash R R' self key value w
      ((w.rewrite self key value replica).sendCopies self key value copies) where
  others := by
    intro b hb
    rw [node_sendCopies, rewrite_others hb]
  node := by
    rw [node_sendCopies]
    exact rewrite_self
  old := by
    intro p hp
    exact net_subset_sendCopies (by rwa [net_rewrite])
  plan := by
    refine ⟨true, copies, hplan, ?_, fun c hc => sent_sendCopies hc, fun _ => ?_⟩
    · intro p hp
      have hnet : (w.rewrite self key value replica).net = w.net := net_rewrite
      rw [← hnet]
      exact mem_net_sendCopies hp
    · rw [node_sendCopies, get?_rewrite hvalue]
      split
      case isTrue => exact ⟨_, rfl, fun v hv => hv.rewritten _ _⟩
      case isFalse => exact ⟨value, hvalue, fun v hv => hv⟩

theorem turned_of_stabilized {n₀ n₁ n₂ : Node} (hring : (w.node self).ring = R.nodes)
    (hself : ∃ n ∈ R.nodes, n.nodeAddress = self)
    (hnew : findNodes hash key R'.nodes = [n₀, n₁, n₂])
    (hvalue : (w.node self).ht.get? key = some value)
    (h : Stabilized self R'.nodes key value (findNodes hash key R.nodes) n₀ n₁ n₂ w w') :
    Turned hash R R' self key value w w' := by
  obtain ⟨o₀, o₁', o₂', hold⟩ := findNodes_of_three hash R.three key
  obtain ⟨hpred₁, hpred₂, hpred₃⟩ := R'.predecessor_findNodes hnew
  have hmem : ∀ {back : Nat} {o : Node}, back ≤ 2 →
      predecessor self (w.node self).ring back = some o → o ∈ R.nodes := by
    intro back o hback ho
    obtain ⟨n, hn, rfl⟩ := hself
    obtain ⟨o', ho', hsome⟩ := R.sortedRing.predecessor_mem hn hback
    rw [hring, hsome] at ho
    rwa [← Option.some.inj ho]
  cases h with
  | handOver hpos =>
      obtain ⟨h₀, h₁, h₂⟩ := ne_of_ownPos hpos
      have hplan := Plan.stranger n₀ n₁ n₂ hnew h₀ h₁ h₂ (R := R)
      constructor
      case others =>
        intro b hb
        simp [node_modifyNode_of_ne hb]
      case node => simp
      case old => exact fun p hp => net_subset_sendCopies hp
      case plan =>
        exact ⟨false, _, hplan, fun p hp => mem_net_sendCopies hp, fun c hc => sent_sendCopies hc,
          fun h => by cases h⟩
  | asPrimary o₁ o₂ hpos ho₁ ho₂ =>
      rw [hold] at ho₁ ho₂
      obtain rfl : o₁' = o₁ := by simpa using ho₁
      obtain rfl : o₂' = o₂ := by simpa using ho₂
      have hn₀ : n₀.nodeAddress = self := by simpa using eq_of_ownPos hpos
      exact turned_rewrite hvalue (.primary n₀ n₁ n₂ o₀ o₁' o₂' hnew hold hn₀)
  | asSecondary o₁ newPred oldPred hpos ho₁ hnewPred holdPred =>
      rw [hold] at ho₁
      obtain rfl : o₁' = o₁ := by simpa using ho₁
      have hn₁ : n₁.nodeAddress = self := by simpa using eq_of_ownPos hpos
      rw [← hn₁, hpred₁] at hnewPred
      obtain rfl := Option.some.inj hnewPred
      exact turned_rewrite hvalue
        (.secondary n₀ n₁ n₂ o₀ o₁' o₂' oldPred hnew hold hn₁ (hmem (by omega) holdPred))
  | asTertiary newPred₂ oldPred₂ newPred₁ oldPred₁ hpos hnew₂ hold₂ hnew₁ hold₁ =>
      have hn₂ : n₂.nodeAddress = self := by simpa using eq_of_ownPos hpos
      rw [← hn₂, hpred₂] at hnew₂
      rw [← hn₂, hpred₃] at hnew₁
      obtain rfl := Option.some.inj hnew₂
      obtain rfl := Option.some.inj hnew₁
      exact turned_rewrite hvalue (.tertiary n₀ n₁ n₂ oldPred₂ oldPred₁ hnew hn₂
        (hmem (by omega) hold₂) (hmem (by omega) hold₁))

/-- What stabilization at one node has done about the key `k`. -/
structure Restabilized (hash : Str → Nat) (R : ProperRing) (R' : SortedRing) (k : Str)
    (server : Address) (w w' : World) : Prop where
  others : ∀ b, b ≠ server → w'.node b = w.node b
  node : w'.node server = { w.node server with ht := (w'.node server).ht }
  old : ∀ p ∈ w.net, p ∈ w'.net
  new : ∀ p ∈ w'.net, p ∈ w.net ∨ ∃ key value c t, p = copyPacket server key value c t ∧
    (c.type = .create ∨ c.type = .update) ∧
    (w.node server).ht.get? key = some value ∧
    ∃ kept copies, Plan hash R R' key server kept copies ∧ c ∈ copies
  lacking : (w.node server).ht.get? k = none → (w'.node server).ht.get? k = none
  having : ∀ text, (w.node server).ht.get? k = some text →
    ∃ kept copies, Plan hash R R' k server kept copies ∧
      (∀ c ∈ copies, ∃ t, copyPacket server k text c t ∈ w'.net) ∧
      (kept = true → ∃ text', (w'.node server).ht.get? k = some text' ∧
        ∀ v, Decodes text v → Decodes text' v)

/-- The loop of stabilization, with `rest` still to come. -/
structure Restabilizing (hash : Str → Nat) (R : ProperRing) (R' : SortedRing) (k : Str)
    (server : Address) (w : World) (rest : List (Str × Str)) (v : World) : Prop where
  listed : ∀ x ∈ rest, (w.node server).ht.get? x.1 = some x.2
  old : ∀ p ∈ w.net, p ∈ v.net
  new : ∀ p ∈ v.net, p ∈ w.net ∨ ∃ key value c t, p = copyPacket server key value c t ∧
    (c.type = .create ∨ c.type = .update) ∧
    (w.node server).ht.get? key = some value ∧
    ∃ kept copies, Plan hash R R' key server kept copies ∧ c ∈ copies
  lacking : (w.node server).ht.get? k = none → (v.node server).ht.get? k = none
  having : k ∉ rest.map Prod.fst → ∀ text, (w.node server).ht.get? k = some text →
    ∃ kept copies, Plan hash R R' k server kept copies ∧
      (∀ c ∈ copies, ∃ t, copyPacket server k text c t ∈ v.net) ∧
      (kept = true → ∃ text', (v.node server).ht.get? k = some text' ∧
        ∀ u, Decodes text u → Decodes text' u)

theorem Restabilizing.turn {rest : List (Str × Str)} {v v' : World}
    (h : Restabilizing hash R R' k self w ((key, value) :: rest) v)
    (hturned : Turned hash R R' self key value v v')
    (hothers : ∀ key', key' ≠ key →
      (v'.node self).ht.get? key' = (v.node self).ht.get? key') :
    Restabilizing hash R R' k self w rest v' := by
  have hentry : (w.node self).ht.get? key = some value :=
    h.listed (key, value) List.mem_cons_self
  obtain ⟨kept, copies, hplan, hnew, hsent, hkept⟩ := hturned.plan
  constructor
  case listed => exact fun x hx => h.listed x (List.mem_cons_of_mem _ hx)
  case old => exact fun p hp => hturned.old p (h.old p hp)
  case new =>
    intro p hp
    rcases hnew p hp with hv | ⟨c, hc, t, rfl⟩
    · exact h.new p hv
    · exact Or.inr ⟨key, value, c, t, rfl, hplan.copy_type hc, hentry, kept, copies, hplan, hc⟩
  case lacking =>
    intro hnone
    have hne : k ≠ key := by
      rintro rfl
      rw [hentry] at hnone
      cases hnone
    rw [hothers k hne]
    exact h.lacking hnone
  case having =>
    intro hrest text htext
    by_cases hk : k = key
    · subst hk
      obtain rfl : value = text := Option.some.inj (hentry.symm.trans htext)
      exact ⟨kept, copies, hplan, hsent, hkept⟩
    · obtain ⟨kept', copies', hplan', hsent', hkept'⟩ :=
        h.having (by simpa [hk] using hrest) text htext
      refine ⟨kept', copies', hplan', fun c hc => ?_, fun hk' => ?_⟩
      · obtain ⟨t, ht⟩ := hsent' c hc
        exact ⟨t, hturned.old _ ht⟩
      · rw [hothers k hk]
        exact hkept' hk'

theorem restabilized (hring : (w.node self).ring = R.nodes)
    (hself : ∃ n ∈ R.nodes, n.nodeAddress = self)
    (h : w.stabilizeKeys hash self R'.nodes = some w') (k : Str) :
    Restabilized hash R R' k self w w' := by
  have hstart : Restabilizing hash R R' k self w (w.node self).ht.hashTable.toList w := by
    refine ⟨fun x hx => HashTable.mem_toList.mp hx, fun p hp => hp, fun p hp => Or.inl hp, id, ?_⟩
    intro hnot text htext
    have hmem := HashTable.mem_toList.mpr
      (show (w.node self).ht.get? (k, text).1 = some text from htext)
    exact absurd (List.mem_map.mpr ⟨(k, text), hmem, rfl⟩) hnot
  have hloop := stabilizeKeys_invariant
    (P := fun rest v => Restabilizing hash R R' k self w rest v)
    (fun key value rest v v' n₀ n₁ n₂ hP _ hvalue hsame hfind hst => by
      have hvring := hsame.trans hring
      rw [hring] at hst
      exact hP.turn (turned_of_stabilized hvring hself hfind hvalue hst)
        fun key' hne => hst.get?_of_ne hvalue hne)
    hstart h
  obtain ⟨hothers, hnode, -⟩ := stabilizeKeys_frame h
  exact ⟨hothers, hnode, hloop.old, hloop.new, hloop.lacking, hloop.having (by simp)⟩

/-- With rings of three nodes no node is stuck. -/
theorem stabilizeKeys_total {R : SortedRing} (hash : Str → Nat) (R' : SortedRing)
    (hring : (w.node self).ring = R.nodes) :
    ∃ w', w.stabilizeKeys hash self R'.nodes = some w' := by
  have hthree := R.three
  rw [← hring] at hthree
  have hne : (w.node self).ring ≠ [] := List.ne_nil_of_length_pos (by omega)
  exact Option.isSome_iff_exists.mp
    ((stabilizeKeys_isSome hne).mpr fun _ _ => ⟨R'.three, Or.inl hthree⟩)

/-! ## All survivors -/

/-- The survivors stabilize one after the other. -/
def stabilizeAll (hash : Str → Nat) (survivors : List Address) (newRing : List Node) (w : World) :
    Option World :=
  survivors.foldlM (fun w self => w.stabilizationProtocol hash self newRing) w

/-- Their turns, whatever becomes of the iterators. -/
def stabilizeAllKeys (hash : Str → Nat) (survivors : List Address) (newRing : List Node)
    (w : World) : Option World :=
  survivors.foldlM (fun w self => w.stabilizeKeys hash self newRing) w

/-- All loops come to their ends just when nobody erases anything, and then they do what the turns
do. -/
theorem stabilizeAll_iff {newRing : List Node} (hnodup : survivors.Nodup)
    (hring : ∀ a ∈ survivors, (w.node a).ring ≠ []) :
    w.stabilizeAll hash survivors newRing = some w' ↔
      w.stabilizeAllKeys hash survivors newRing = some w' ∧
        ∀ a ∈ survivors, ErasesNothing hash a newRing w := by
  unfold stabilizeAll stabilizeAllKeys
  induction survivors generalizing w with
  | nil => simp
  | cons self rest ih =>
      obtain ⟨hfresh, hnodup⟩ := List.nodup_cons.mp hnodup
      obtain ⟨hself, hrest⟩ := List.forall_mem_cons.mp hring
      have hlater : ∀ {v : World}, w.stabilizeKeys hash self newRing = some v →
          (rest.foldlM (fun w self => w.stabilizationProtocol hash self newRing) v = some w' ↔
            rest.foldlM (fun w self => w.stabilizeKeys hash self newRing) v = some w' ∧
              ∀ a ∈ rest, ErasesNothing hash a newRing w) := by
        intro v hv
        have hsame : ∀ a ∈ rest, v.node a = w.node a := by
          intro a ha
          apply (stabilizeKeys_frame hv).1
          rintro rfl
          exact hfresh ha
        rw [ih hnodup fun a ha => by rw [hsame a ha]; exact hrest a ha]
        apply and_congr_right'
        apply forall₂_congr
        intro a ha
        unfold ErasesNothing
        rw [hsame a ha]
      simp only [List.foldlM_cons, Option.bind_eq_bind, Option.bind_eq_some_iff,
        List.forall_mem_cons, stabilizationProtocol_iff hself]
      constructor
      · rintro ⟨v, ⟨hv, herases⟩, hfold⟩
        obtain ⟨hfold, hothers⟩ := (hlater hv).mp hfold
        exact ⟨⟨v, hv, hfold⟩, herases, hothers⟩
      · rintro ⟨⟨v, hv, hfold⟩, herases, hothers⟩
        exact ⟨v, ⟨hv, herases⟩, (hlater hv).mpr ⟨hfold, hothers⟩⟩

/-- What they have done about the key `k`, with `rest` still to come. -/
structure Rebalancing (hash : Str → Nat) (R : ProperRing) (R' : SortedRing) (k : Str)
    (survivors : List Address) (w : World) (rest : List Address) (v : World) : Prop where
  node : ∀ b, v.node b = { w.node b with ht := (v.node b).ht }
  waiting : ∀ b, b ∉ survivors ∨ b ∈ rest → v.node b = w.node b
  old : ∀ p ∈ w.net, p ∈ v.net
  new : ∀ p ∈ v.net, p ∈ w.net ∨ ∃ server ∈ survivors, ∃ key value c t,
    p = copyPacket server key value c t ∧ (c.type = .create ∨ c.type = .update) ∧
    (w.node server).ht.get? key = some value ∧
    ∃ kept copies, Plan hash R R' key server kept copies ∧ c ∈ copies
  lacking : ∀ b, (w.node b).ht.get? k = none → (v.node b).ht.get? k = none
  having : ∀ server ∈ survivors, server ∉ rest → ∀ text, (w.node server).ht.get? k = some text →
    ∃ kept copies, Plan hash R R' k server kept copies ∧
      (∀ c ∈ copies, ∃ t, copyPacket server k text c t ∈ v.net) ∧
      (kept = true → ∃ text', (v.node server).ht.get? k = some text' ∧
        ∀ u, Decodes text u → Decodes text' u)

variable {survivors rest : List Address} {v v' : World}

theorem Rebalancing.turn (h : Rebalancing hash R R' k survivors w (self :: rest) v)
    (hself : self ∈ survivors) (hnodup : self ∉ rest)
    (hturn : Restabilized hash R R' k self v v') :
    Rebalancing hash R R' k survivors w rest v' := by
  have hsame : v.node self = w.node self := h.waiting self (Or.inr List.mem_cons_self)
  have hothers : ∀ b, b ≠ self → v'.node b = v.node b := hturn.others
  constructor
  case node =>
    intro b
    by_cases hb : b = self
    · rw [hb, hturn.node, hsame]
    · rw [hothers b hb]
      exact h.node b
  case waiting =>
    intro b hb
    have hne : b ≠ self := by
      rintro rfl
      exact hb.elim (fun hnot => hnot hself) hnodup
    rw [hothers b hne]
    exact h.waiting b (hb.imp_right (List.mem_cons_of_mem _))
  case old => exact fun p hp => hturn.old p (h.old p hp)
  case new =>
    intro p hp
    rcases hturn.new p hp with hv | ⟨key, value, c, t, hcopy, htype, hentry, hplan⟩
    · exact h.new p hv
    · rw [hsame] at hentry
      exact Or.inr ⟨self, hself, key, value, c, t, hcopy, htype, hentry, hplan⟩
  case lacking =>
    intro b hb
    by_cases hne : b = self
    · subst hne
      exact hturn.lacking (h.lacking b hb)
    · rw [hothers b hne]
      exact h.lacking b hb
  case having =>
    intro server hserver hrest text htext
    by_cases hne : server = self
    · subst hne
      rw [← hsame] at htext
      exact hturn.having text htext
    · obtain ⟨kept, copies, hplan, hsent, hkept⟩ :=
        h.having server hserver (by simp [hne, hrest]) text htext
      refine ⟨kept, copies, hplan, fun c hc => ?_, ?_⟩
      · obtain ⟨t, ht⟩ := hsent c hc
        exact ⟨t, hturn.old _ ht⟩
      · rw [hothers server hne]
        exact hkept

theorem rebalanced (hash : Str → Nat) (R' : SortedRing) (hnodup : survivors.Nodup)
    (hself : ∀ a ∈ survivors, ∃ n ∈ R.nodes, n.nodeAddress = a)
    (hring : ∀ a ∈ survivors, (w.node a).ring = R.nodes) (k : Str) :
    ∃ w', w.stabilizeAllKeys hash survivors R'.nodes = some w' ∧
      Rebalancing hash R R' k survivors w [] w' := by
  have hloop := foldlM_total (l := survivors) (s := w)
    (f := fun w self => w.stabilizeKeys hash self R'.nodes)
    (P := fun rest v => Rebalancing hash R R' k survivors w rest v ∧ rest.Nodup ∧
      ∀ a ∈ rest, a ∈ survivors)
    (fun self rest v hP => by
      obtain ⟨hv, hrest, hsub⟩ := hP
      have hmem := hsub self List.mem_cons_self
      have hvring : (v.node self).ring = R.nodes := by
        rw [hv.waiting self (Or.inr List.mem_cons_self)]
        exact hring self hmem
      obtain ⟨v', hv'⟩ :=
        @stabilizeKeys_total _ _ R.sortedRing hash R' hvring
      have hnodup := List.nodup_cons.mp hrest
      refine ⟨v', hv', hv.turn hmem hnodup.1 (restabilized hvring (hself self hmem) hv' k),
        hnodup.2, fun a ha => hsub a (List.mem_cons_of_mem _ ha)⟩)
    ⟨⟨fun b => rfl, fun b _ => rfl, fun p hp => hp, fun p hp => Or.inl hp, fun b hb => hb,
      fun server hserver hnot => absurd hserver hnot⟩, hnodup, fun a ha => ha⟩
  obtain ⟨w', hw', hP, -⟩ := hloop
  exact ⟨w', hw', hP⟩

end World

end CloudComputing.KeyValueStore
