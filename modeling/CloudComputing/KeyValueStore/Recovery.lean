import CloudComputing.KeyValueStore.Replication

/-!
# After failures and joins

The survivors have stabilized and what they sent is delivered.  When members only
left, the first new replica was an old one and sends what is missing.  When
members joined as well, it may be new itself, and what the others send does not
always reach the third replica.
-/

namespace CloudComputing.KeyValueStore

open Lib Relation

/-- Members of both rings are the same nodes. -/
def Consistent (R : ProperRing) (R' : SortedRing) : Prop :=
  ∀ n ∈ R.nodes, ∀ n' ∈ R'.nodes, n.nodeAddress = n'.nodeAddress → n = n'

instance {R : ProperRing} {R' : SortedRing} : Decidable (Consistent R R') :=
  inferInstanceAs (Decidable (∀ n ∈ R.nodes, ∀ n' ∈ R'.nodes,
    n.nodeAddress = n'.nodeAddress → n = n'))

def surviving (R : ProperRing) (R' : SortedRing) : List Address :=
  (R.nodes.filter fun n => n ∈ R'.nodes).map Node.nodeAddress

theorem mem_surviving {R : ProperRing} {R' : SortedRing} {a : Address} :
    a ∈ surviving R R' ↔ ∃ n ∈ R.nodes, n ∈ R'.nodes ∧ n.nodeAddress = a := by
  simp [surviving, and_assoc]

theorem nodup_surviving (R : ProperRing) (R' : SortedRing) : (surviving R R').Nodup :=
  R.addresses.sublist (List.filter_sublist.map _)

namespace World

def setRings (ring : Address → List Node) (w : World) : World :=
  { w with node := fun a => { w.node a with ring := ring a } }

variable {hash : Str → Nat} {R : ProperRing} {R' : SortedRing} {w w₁ w₂ : World} {a b : Address}
  {k value text s : Str} {n o n₀ n₁ n₂ : Node} {survivors : List Address}

@[simp] theorem ht_setRings {ring : Address → List Node} :
    ((w.setRings ring).node b).ht = (w.node b).ht := rfl

@[simp] theorem pending_setRings {ring : Address → List Node} :
    (w.setRings ring).pending b = w.pending b := rfl

/-! ## What is under way after stabilization -/

/-- The surviving old replicas hold the key, and there is one. -/
structure HeldBefore (hash : Str → Nat) (R : ProperRing) (R' : SortedRing) (k : Str)
    (w : World) : Prop where
  wire : Wire w
  consistent : Consistent R R'
  survivor : ∃ o ∈ findNodes hash k R.nodes, o ∈ R'.nodes
  held : ∀ o ∈ findNodes hash k R.nodes, o ∈ R'.nodes → (w.node o.nodeAddress).ht.get? k ≠ none
  quiet : ∀ n ∈ R'.nodes, NoWriteTo w k n.nodeAddress

/-- A write of the key under way to a member is a copy sent by a holder. -/
theorem Rebalancing.copy_of_pending {rest : List Address} {uninit : ReplicaType} {m : Message}
    (hr : Rebalancing hash R R' k survivors w rest w₁) (hw : Wire w)
    (hquiet : NoWriteTo w k b) (hs : s ∈ w₁.pending b)
    (hm : Message.ofString uninit s = some m) (hwrites : m.Writes k) :
    ∃ server ∈ survivors, ∃ kept copies, Plan hash R R' k server kept copies ∧
      (w.node server).ht.get? k = some m.value ∧
      ∃ c ∈ copies, c.toAddr = b ∧ m.type = c.type := by
  have hsent : s ∈ w.pending b ∨ ∃ p ∈ w₁.net, p ∉ w.net ∧ p.dst = b ∧ p.data = s := by
    rcases List.mem_append.mp hs with hnet | hqueue
    · obtain ⟨p, hp, rfl⟩ := List.mem_map.mp hnet
      obtain ⟨hp, hdst⟩ := List.mem_filter.mp hp
      by_cases hold : p ∈ w.net
      · exact Or.inl (List.mem_append_left _
          (List.mem_map.mpr ⟨p, List.mem_filter.mpr ⟨hold, hdst⟩, rfl⟩))
      · exact Or.inr ⟨p, hp, hold, of_decide_eq_true hdst, rfl⟩
    · refine Or.inl (List.mem_append_right _ ?_)
      rw [hr.node b] at hqueue
      exact hqueue
  rcases hsent with hold | ⟨p, hp, hnot, hdst, hdata⟩
  · exact absurd hwrites (hquiet s hold uninit m hm)
  · obtain ⟨server, hserver, key, value, c, t, rfl, htype, hentry, kept, copies, hplan, hc⟩ :=
      (hr.new p hp).resolve_left hnot
    have hclean := hw.cleanTable server key value hentry
    have hsend : (c.message server key value t).Sendable := by
      unfold Message.Sendable Copy.message
      rcases htype with h | h <;> (rw [h]; exact hclean)
    rw [← hdata, copyPacket, Message.ofString_toString uninit hsend] at hm
    obtain rfl := Option.some.inj hm
    have hfields : ((c.message server key value t).received uninit).key = key ∧
        ((c.message server key value t).received uninit).value = value ∧
        ((c.message server key value t).received uninit).type = c.type := by
      unfold Message.received Copy.message
      rcases htype with h | h <;> (rw [h]; exact ⟨rfl, rfl, rfl⟩)
    obtain rfl : key = k := hfields.1.symm.trans hwrites.2
    exact ⟨server, hserver, kept, copies, hplan, by rw [hfields.2.1]; exact hentry, c, hc, hdst,
      hfields.2.2⟩

theorem served_of_copy {server : Address} {c : Copy} {t : Int32} (hw : Wire w)
    (hentry : (w.node server).ht.get? k = some text) (htype : c.type = .create)
    (hsent : copyPacket server k text c t ∈ w₁.net) : Served w₁ k c.toAddr := by
  refine Or.inr ⟨(c.message server k text t).toString, ?_, fun uninit => ?_⟩
  · refine List.mem_append_left _ (List.mem_map.mpr ⟨_, List.mem_filter.mpr ⟨hsent, ?_⟩, rfl⟩)
    exact decide_eq_true rfl
  · have hclean := hw.cleanTable server k text hentry
    have hsend : (c.message server k text t).Sendable := by
      unfold Message.Sendable Copy.message
      rw [htype]
      exact hclean
    refine ⟨_, Message.ofString_toString uninit hsend, ?_⟩
    unfold Message.received Copy.message
    rw [htype]
    exact ⟨rfl, rfl⟩

/-- The loops of the survivors end where their turns lead, when nobody erases anything. -/
theorem iterated_iff (hnodup : survivors.Nodup)
    (hring : ∀ a ∈ survivors, (w.node a).ring = R.nodes)
    (hw₁ : w.stabilizeAllKeys hash survivors R'.nodes = some w₁) (v : World) :
    w.stabilizeAll hash survivors R'.nodes = some v ↔
      v = w₁ ∧ ∀ a ∈ survivors, ErasesNothing hash a R'.nodes w := by
  have hne : ∀ a ∈ survivors, (w.node a).ring ≠ [] := by
    intro a ha
    have hthree := R.three
    rw [hring a ha]
    exact List.ne_nil_of_length_pos (by omega)
  rw [stabilizeAll_iff hnodup hne, hw₁, Option.some.injEq, eq_comm]

/-! ## Who holds the key -/

theorem address_ne (hnew : findNodes hash k R'.nodes = [n₀, n₁, n₂]) :
    n₀.nodeAddress ≠ n₁.nodeAddress ∧ n₀.nodeAddress ≠ n₂.nodeAddress ∧
      n₁.nodeAddress ≠ n₂.nodeAddress := by
  have hnodup := findNodes_nodup hash k R'.addresses
  rw [hnew] at hnodup
  simp only [List.map_cons, List.map_nil, List.nodup_cons, List.mem_cons, List.not_mem_nil,
    or_false, not_or] at hnodup
  exact ⟨hnodup.1.1, hnodup.1.2, hnodup.2.1⟩

theorem Rebalancing.holds (hr : Rebalancing hash R R' k survivors w [] w₁)
    (hn : n ∈ findNodes hash k R'.nodes) (htext : (w.node n.nodeAddress).ht.get? k = some text) :
    ∃ text', (w₁.node n.nodeAddress).ht.get? k = some text' ∧
      ∀ v, Decodes text v → Decodes text' v := by
  by_cases hsurvivor : n.nodeAddress ∈ survivors
  · obtain ⟨kept, copies, hplan, -, hkept⟩ := hr.having _ hsurvivor (by simp) text htext
    exact hkept (hplan.kept_of_mem hn)
  · rw [hr.waiting _ (Or.inl hsurvivor)]
    exact ⟨text, htext, fun v hv => hv⟩

theorem Rebalancing.keeps (hr : Rebalancing hash R R' k survivors w [] w₁)
    (hn : n ∈ findNodes hash k R'.nodes) (hheld : (w.node n.nodeAddress).ht.get? k ≠ none) :
    (w₁.node n.nodeAddress).ht.get? k ≠ none := by
  obtain ⟨text, htext⟩ := Option.ne_none_iff_exists'.mp hheld
  obtain ⟨text', htext', -⟩ := hr.holds hn htext
  simp [htext']

theorem Rebalancing.decodes (hr : Rebalancing hash R R' k survivors w [] w₁)
    (hn : n ∈ findNodes hash k R'.nodes)
    (hvalue : ∀ text, (w.node n.nodeAddress).ht.get? k = some text → Decodes text value) :
    ∀ text, (w₁.node n.nodeAddress).ht.get? k = some text → Decodes text value := by
  intro text htext
  cases hbefore : (w.node n.nodeAddress).ht.get? k with
  | none =>
      rw [hr.lacking _ hbefore] at htext
      cases htext
  | some old =>
      obtain ⟨text', htext', hsame⟩ := hr.holds hn hbefore
      obtain rfl := Option.some.inj (htext'.symm.trans htext)
      exact hsame value (hvalue old hbefore)

/-- No member is met before the first new replica, and only it before the second. -/
theorem not_ahead_of_member (hnew : findNodes hash k R'.nodes = [n₀, n₁, n₂]) (ho : o ∈ R'.nodes) :
    ¬ Ahead (hashFunction hash k) o n₀ ∧ (n₀ = o ∨ ¬ Ahead (hashFunction hash k) o n₁) := by
  obtain ⟨h₁₀, h₂₀, h₂₁⟩ := R'.not_ahead_of_findNodes hnew
  rcases R'.mem_findNodes_or_not_ahead hash k ho with hmem | hbehind
  · rw [hnew] at hmem
    simp only [List.mem_cons, List.not_mem_nil, or_false] at hmem
    rcases hmem with rfl | rfl | rfl
    · exact ⟨Ahead.irrefl, Or.inl rfl⟩
    · exact ⟨h₁₀, Or.inr Ahead.irrefl⟩
    · exact ⟨h₂₀, Or.inr h₂₁⟩
  · rw [hnew] at hbehind
    exact ⟨hbehind n₀ (by simp), Or.inr (hbehind n₁ (by simp))⟩

theorem HeldBefore.first (hb : HeldBefore hash R R' k w)
    (hnew : findNodes hash k R'.nodes = [n₀, n₁, n₂]) (hn₀ : n₀ ∈ R.nodes) :
    (w.node n₀.nodeAddress).ht.get? k ≠ none := by
  obtain ⟨o, ho, ho'⟩ := hb.survivor
  have hmem : n₀ ∈ R'.nodes := R'.mem_of_mem_findNodes (by rw [hnew]; simp)
  exact hb.held n₀ (R.mem_findNodes_of_not_ahead ho hn₀ (not_ahead_of_member hnew ho').1) hmem

theorem HeldBefore.second (hb : HeldBefore hash R R' k w)
    (hnew : findNodes hash k R'.nodes = [n₀, n₁, n₂]) (hn₀ : n₀ ∉ R.nodes) (hn₁ : n₁ ∈ R.nodes) :
    (w.node n₁.nodeAddress).ht.get? k ≠ none := by
  obtain ⟨o, ho, ho'⟩ := hb.survivor
  have hmem : n₁ ∈ R'.nodes := R'.mem_of_mem_findNodes (by rw [hnew]; simp)
  have hne : n₀ ≠ o := by
    rintro rfl
    exact hn₀ (R.sortedRing.mem_of_mem_findNodes ho)
  have hbefore := (not_ahead_of_member hnew ho').2.resolve_left hne
  exact hb.held n₁ (R.mem_findNodes_of_not_ahead ho hn₁ hbefore) hmem

/-! ## Whom the copies reach -/

/-- A node that an old replica is taken for is that replica. -/
theorem HeldBefore.holds_of_old (hb : HeldBefore hash R R' k w) (hn : n ∈ R'.nodes)
    (ho : o ∈ findNodes hash k R.nodes) (heq : n.nodeAddress = o.nodeAddress) :
    (w.node n.nodeAddress).ht.get? k ≠ none := by
  obtain rfl := hb.consistent o (R.sortedRing.mem_of_mem_findNodes ho) n hn heq.symm
  exact hb.held o ho hn

section Copies

variable (hb : HeldBefore hash R R' k w) (hr : Rebalancing hash R R' k survivors w [] w₁)
  (hsurvivors : ∀ a, a ∈ survivors ↔ a ∈ surviving R R')
  (hnew : findNodes hash k R'.nodes = [n₀, n₁, n₂])

include hb hr hnew

/-- As the first replica, a holder sees to the other two. -/
theorem served_by_primary {copies : List Copy} {o₀ o₁ o₂ : Node}
    (hold : findNodes hash k R.nodes = [o₀, o₁, o₂])
    (hentry : (w.node n₀.nodeAddress).ht.get? k = some text)
    (hcopies : copies = Copy.ofPrimary n₁ n₂ o₁ o₂)
    (hsent : ∀ c ∈ copies, ∃ t, copyPacket n₀.nodeAddress k text c t ∈ w₁.net) :
    ∀ n ∈ [n₀, n₁, n₂], Served w₁ k n.nodeAddress := by
  have hmem : ∀ n ∈ [n₀, n₁, n₂], n ∈ R'.nodes := fun n hn =>
    R'.mem_of_mem_findNodes (by rwa [hnew])
  have hkeeps : ∀ n ∈ [n₀, n₁, n₂], (w.node n.nodeAddress).ht.get? k ≠ none →
      Served w₁ k n.nodeAddress := fun n hn hheld => Or.inl (hr.keeps (by rwa [hnew]) hheld)
  have hold₁ : o₁ ∈ findNodes hash k R.nodes := by rw [hold]; simp
  have hold₂ : o₂ ∈ findNodes hash k R.nodes := by rw [hold]; simp
  have hsend : ∀ n ∈ [n₀, n₁, n₂], ∀ o ∈ findNodes hash k R.nodes, ∀ replica,
      (∀ c ∈ Copy.unlessSame n o replica, c ∈ copies) → Served w₁ k n.nodeAddress := by
    intro n hn o ho replica hsub
    by_cases heq : o.nodeAddress = n.nodeAddress
    · exact hkeeps n hn (hb.holds_of_old (hmem n hn) ho heq.symm)
    · rw [Copy.unlessSame, if_neg heq] at hsub
      obtain ⟨t, ht⟩ := hsent _ (hsub _ (List.mem_singleton_self _))
      exact served_of_copy hb.wire hentry rfl ht
  subst hcopies
  intro n hn
  simp only [List.mem_cons, List.not_mem_nil, or_false] at hn
  rcases hn with rfl | rfl | rfl
  · exact hkeeps n (by simp) (by simp [hentry])
  · by_cases heq : n.nodeAddress = o₂.nodeAddress
    · exact hkeeps n (by simp) (hb.holds_of_old (hmem n (by simp)) hold₂ heq)
    · refine hsend n (by simp) o₁ hold₁ .secondary fun c hc => ?_
      rw [Copy.ofPrimary, if_neg heq]
      exact List.mem_append_left _ hc
  · by_cases heq : n.nodeAddress = o₁.nodeAddress
    · exact hkeeps n (by simp) (hb.holds_of_old (hmem n (by simp)) hold₁ heq)
    · refine hsend n (by simp) o₂ hold₂ .tertiary fun c hc => ?_
      rw [Copy.ofPrimary, if_neg heq]
      exact List.mem_append_right _ hc

include hsurvivors

/-- When the first new replica is an old member, all three are served. -/
theorem served_by_first (hn₀ : n₀ ∈ R.nodes) : ∀ n ∈ [n₀, n₁, n₂], Served w₁ k n.nodeAddress := by
  obtain ⟨hne₀₁, hne₀₂, -⟩ := address_ne hnew
  have hmem : n₀ ∈ R'.nodes := R'.mem_of_mem_findNodes (by rw [hnew]; simp)
  have hsurvivor : n₀.nodeAddress ∈ survivors :=
    (hsurvivors _).mpr (mem_surviving.mpr ⟨n₀, hn₀, hmem, rfl⟩)
  obtain ⟨text, htext⟩ := Option.ne_none_iff_exists'.mp (hb.first hnew hn₀)
  obtain ⟨kept, copies, hplan, hsent, -⟩ := hr.having _ hsurvivor (by simp) text htext
  cases hplan with
  | stranger m₀ m₁ m₂ hm h₀ h₁ h₂ =>
      obtain ⟨rfl, rfl, rfl⟩ : n₀ = m₀ ∧ n₁ = m₁ ∧ n₂ = m₂ := by simpa [hnew] using hm
      exact absurd rfl h₀
  | primary m₀ m₁ m₂ o₀ o₁ o₂ hm hold hself =>
      obtain ⟨rfl, rfl, rfl⟩ : n₀ = m₀ ∧ n₁ = m₁ ∧ n₂ = m₂ := by simpa [hnew] using hm
      exact served_by_primary hb hr hnew hold htext rfl hsent
  | secondary m₀ m₁ m₂ o₀ o₁ o₂ oldPred hm hold hself hpred =>
      obtain ⟨rfl, rfl, rfl⟩ : n₀ = m₀ ∧ n₁ = m₁ ∧ n₂ = m₂ := by simpa [hnew] using hm
      exact absurd hself.symm hne₀₁
  | tertiary m₀ m₁ m₂ p₂ p₁ hm hself hpred₂ hpred₁ =>
      obtain ⟨rfl, rfl, rfl⟩ : n₀ = m₀ ∧ n₁ = m₁ ∧ n₂ = m₂ := by simpa [hnew] using hm
      exact absurd hself.symm hne₀₂

/-- A survivor that holds the key serves all three, unless it is the second one: then the third
has to hold the key already. -/
theorem served_by_holder (ha : a ∈ survivors) (hheld : (w.node a).ht.get? k ≠ none)
    (hcase : a ≠ n₁.nodeAddress ∨ (w.node n₂.nodeAddress).ht.get? k ≠ none) :
    ∀ n ∈ [n₀, n₁, n₂], Served w₁ k n.nodeAddress := by
  by_cases hn₀ : n₀ ∈ R.nodes
  case pos => exact served_by_first hb hr hsurvivors hnew hn₀
  have hkeeps : ∀ n ∈ [n₀, n₁, n₂], (w.node n.nodeAddress).ht.get? k ≠ none →
      Served w₁ k n.nodeAddress := fun n hn hheld => Or.inl (hr.keeps (by rwa [hnew]) hheld)
  obtain ⟨text, htext⟩ := Option.ne_none_iff_exists'.mp hheld
  obtain ⟨kept, copies, hplan, hsent, -⟩ := hr.having _ ha (by simp) text htext
  have hcopy : ∀ c ∈ copies, c.type = .create → Served w₁ k c.toAddr := by
    intro c hc htype
    obtain ⟨t, ht⟩ := hsent c hc
    exact served_of_copy hb.wire htext htype ht
  -- the first new replica has joined, so nobody takes it for an old predecessor
  have hfirst : ∀ {o : Node}, o ∈ R.nodes → o.nodeAddress ≠ n₀.nodeAddress := by
    intro o ho heq
    have hmem : n₀ ∈ R'.nodes := R'.mem_of_mem_findNodes (by rw [hnew]; simp)
    exact hn₀ (hb.consistent o ho n₀ hmem heq ▸ ho)
  cases hplan with
  | stranger m₀ m₁ m₂ hm h₀ h₁ h₂ =>
      obtain ⟨rfl, rfl, rfl⟩ : n₀ = m₀ ∧ n₁ = m₁ ∧ n₂ = m₂ := by simpa [hnew] using hm
      intro n hn
      simp only [List.mem_cons, List.not_mem_nil, or_false] at hn
      rcases hn with rfl | rfl | rfl
      · exact hcopy ⟨n.nodeAddress, .create, .primary⟩ (by simp [Copy.ofStranger]) rfl
      · exact hcopy ⟨n.nodeAddress, .create, .secondary⟩ (by simp [Copy.ofStranger]) rfl
      · exact hcopy ⟨n.nodeAddress, .create, .tertiary⟩ (by simp [Copy.ofStranger]) rfl
  | primary m₀ m₁ m₂ o₀ o₁ o₂ hm hold hself =>
      obtain ⟨rfl, rfl, rfl⟩ : n₀ = m₀ ∧ n₁ = m₁ ∧ n₂ = m₂ := by simpa [hnew] using hm
      obtain ⟨o, ho, -, haddr⟩ := mem_surviving.mp ((hsurvivors a).mp ha)
      exact absurd (haddr.trans hself.symm) (hfirst ho)
  | secondary m₀ m₁ m₂ o₀ o₁ o₂ oldPred hm hold hself hpred =>
      obtain ⟨rfl, rfl, rfl⟩ : n₀ = m₀ ∧ n₁ = m₁ ∧ n₂ = m₂ := by simpa [hnew] using hm
      intro n hn
      simp only [List.mem_cons, List.not_mem_nil, or_false] at hn
      rcases hn with rfl | rfl | rfl
      · refine hcopy ⟨n.nodeAddress, .create, .primary⟩ ?_ rfl
        refine List.mem_append_right _ ?_
        rw [Copy.unlessSame, if_neg (hfirst hpred)]
        exact List.mem_singleton_self _
      · exact hkeeps n (by simp) (by rw [hself]; exact hheld)
      · exact hkeeps n (by simp) (hcase.resolve_left fun hne => hne hself.symm)
  | tertiary m₀ m₁ m₂ p₂ p₁ hm hself hpred₂ hpred₁ =>
      obtain ⟨rfl, rfl, rfl⟩ : n₀ = m₀ ∧ n₁ = m₁ ∧ n₂ = m₂ := by simpa [hnew] using hm
      intro n hn
      simp only [List.mem_cons, List.not_mem_nil, or_false] at hn
      rcases hn with rfl | rfl | rfl
      · refine hcopy ⟨n.nodeAddress, .create, .primary⟩ ?_ rfl
        refine List.mem_append_left _ ?_
        rw [Copy.unlessSame, if_neg (hfirst hpred₂)]
        exact List.mem_singleton_self _
      · by_cases heq : p₁.nodeAddress = n.nodeAddress
        · have hmem : n ∈ R'.nodes := R'.mem_of_mem_findNodes (by rw [hnew]; simp)
          have hn₁ : n ∈ R.nodes := hb.consistent p₁ hpred₁ n hmem heq ▸ hpred₁
          exact hkeeps n (by simp) (hb.second hnew hn₀ hn₁)
        · refine hcopy ⟨n.nodeAddress, .create, .secondary⟩ ?_ rfl
          refine List.mem_append_right _ ?_
          rw [Copy.unlessSame, if_neg heq]
          exact List.mem_singleton_self _
      · exact hkeeps n (by simp) (by rw [hself]; exact hheld)

end Copies

/-! ## Failures and joins -/

theorem Rebalancing.no_delete (hr : Rebalancing hash R R' k survivors w [] w₁)
    (hw : Wire w) (hquiet : NoWriteTo w k b) :
    WritesOnly w₁ k fun c m => c = b → m.type ≠ .delete := by
  rintro c s hs uninit m hm hwrites rfl
  obtain ⟨server, -, kept, copies, hplan, -, copy, hcopy, -, htype⟩ :=
    hr.copy_of_pending hw hquiet hs hm hwrites
  rw [htype]
  rcases hplan.copy_type hcopy with h | h <;> simp [h]

theorem Rebalancing.no_create (hr : Rebalancing hash R R' k survivors w [] w₁)
    (hw : Wire w) (hquiet : NoWriteTo w k b)
    (hb : ∀ n ∈ findNodes hash k R'.nodes, n.nodeAddress ≠ b) :
    WritesOnly w₁ k fun c m => c = b → m.type ≠ .create := by
  rintro c s hs uninit m hm hwrites rfl
  obtain ⟨server, -, kept, copies, hplan, -, copy, hcopy, hto, -⟩ :=
    hr.copy_of_pending hw hquiet hs hm hwrites
  obtain ⟨n, hn, haddr⟩ := hplan.copy_toAddr hcopy
  exact absurd (haddr.trans hto) (hb n hn)

theorem Rebalancing.copies_decode (hr : Rebalancing hash R R' k survivors w [] w₁)
    (hw : Wire w) (hquiet : NoWriteTo w k b)
    (hvalue : ∀ a ∈ survivors, ∀ text, (w.node a).ht.get? k = some text → Decodes text value) :
    WritesOnly w₁ k fun c m => c = b → Decodes m.value value := by
  rintro c s hs uninit m hm hwrites rfl
  obtain ⟨server, hserver, kept, copies, -, hentry, -⟩ :=
    hr.copy_of_pending hw hquiet hs hm hwrites
  exact hvalue server hserver _ hentry

/-! ## Failures only -/

section Failures

variable (hsub : ∀ n ∈ R'.nodes, n ∈ R.nodes)

include hsub

theorem mem_findNodes_of_old (ho : o ∈ findNodes hash k R.nodes) (ho' : o ∈ R'.nodes) :
    o ∈ findNodes hash k R'.nodes := by
  rcases R'.mem_findNodes_or_not_ahead hash k ho' with hmem | hbefore
  · exact hmem
  -- otherwise the three new replicas are old ones too, and there is no fourth
  have hold : findNodes hash k R'.nodes ⊆ findNodes hash k R.nodes := by
    intro n hn
    exact R.mem_findNodes_of_not_ahead ho (hsub n (R'.mem_of_mem_findNodes hn)) (hbefore n hn)
  have hnodup : (findNodes hash k R'.nodes).Nodup := (findNodes_nodup hash k R'.addresses).of_map
  obtain ⟨n₀, n₁, n₂, hnew⟩ := findNodes_of_three hash R'.three k
  obtain ⟨o₀, o₁, o₂, hthree⟩ := findNodes_of_three hash R.three k
  have hperm := (hnodup.subperm hold).perm_of_length_le (by rw [hnew, hthree]; rfl)
  exact hperm.mem_iff.mpr ho

theorem consistent_of_subset : Consistent R R' :=
  fun _ hn _ hn' h => R.eq_of_nodeAddress hn (hsub _ hn') h

theorem mem_surviving_of_subset (hperm : survivors.Perm (R'.nodes.map Node.nodeAddress)) :
    a ∈ survivors ↔ a ∈ surviving R R' := by
  rw [hperm.mem_iff, mem_surviving, List.mem_map]
  constructor
  · rintro ⟨n, hn, rfl⟩
    exact ⟨n, hsub n hn, hn, rfl⟩
  · rintro ⟨n, -, hn, rfl⟩
    exact ⟨n, hn, rfl⟩

end Failures

/-- After failures only, the key is at its three new replicas, and nowhere else.  No survivor is
stuck in a turn, and all loops come to their ends when no other key is erased under an iterator. -/
theorem stabilization_after_failures (hsub : ∀ n ∈ R'.nodes, n ∈ R.nodes) (hwire : Wire w)
    (hquiet : ∀ n ∈ R'.nodes, NoWriteTo w k n.nodeAddress)
    (hperm : survivors.Perm (R'.nodes.map Node.nodeAddress))
    (hring : ∀ a ∈ survivors, (w.node a).ring = R.nodes)
    (hsurvivor : ∃ o ∈ findNodes hash k R.nodes, o ∈ R'.nodes)
    (hheld : ∀ o ∈ findNodes hash k R.nodes, o ∈ R'.nodes → Holds w o.nodeAddress k value)
    (hothers : ∀ n ∈ R'.nodes, n ∉ findNodes hash k R.nodes →
      (w.node n.nodeAddress).ht.get? k = none) :
    ∃ w₁, w.stabilizeAllKeys hash survivors R'.nodes = some w₁ ∧
      (∀ v, w.stabilizeAll hash survivors R'.nodes = some v ↔
        v = w₁ ∧ ∀ a ∈ survivors, ErasesNothing hash a R'.nodes w) ∧
      (∀ o ∈ findNodes hash k R.nodes, o ∈ R'.nodes → Holds w₁ o.nodeAddress k value) ∧
      ∀ ring w₂, Steps hash Delivering (w₁.setRings ring) w₂ →
        (∀ o ∈ findNodes hash k R.nodes, o ∈ R'.nodes → Holds w₂ o.nodeAddress k value) ∧
        ((∀ n ∈ R'.nodes, NoWriteTo w₂ k n.nodeAddress) → ∀ n ∈ R'.nodes,
          (n ∈ findNodes hash k R'.nodes → Holds w₂ n.nodeAddress k value) ∧
          (n ∉ findNodes hash k R'.nodes → (w₂.node n.nodeAddress).ht.get? k = none)) := by
  have hmember : ∀ {a}, a ∈ survivors → ∃ n ∈ R'.nodes, n.nodeAddress = a := by
    intro a ha
    exact List.mem_map.mp (hperm.mem_iff.mp ha)
  have hmem : ∀ n ∈ findNodes hash k R'.nodes, n ∈ R'.nodes := fun n hn =>
    R'.mem_of_mem_findNodes hn
  have hvalue : ∀ n ∈ R'.nodes, ∀ text, (w.node n.nodeAddress).ht.get? k = some text →
      Decodes text value := by
    intro n hn text htext
    by_cases hold : n ∈ findNodes hash k R.nodes
    · exact (hheld n hold hn).decodes htext
    · rw [hothers n hn hold] at htext
      cases htext
  have hb : HeldBefore hash R R' k w := ⟨hwire, consistent_of_subset hsub, hsurvivor,
    fun o ho ho' => (hheld o ho ho').ne_none, hquiet⟩
  have hnodup := hperm.nodup_iff.mpr R'.addresses
  obtain ⟨w₁, hw₁, hr⟩ := rebalanced hash R' hnodup
    (fun a ha => (hmember ha).imp fun n hn => ⟨hsub n hn.1, hn.2⟩) hring k
  have hdecodes₁ : ∀ n ∈ findNodes hash k R'.nodes, ∀ text,
      (w₁.node n.nodeAddress).ht.get? k = some text → Decodes text value := fun n hn =>
    hr.decodes hn (hvalue n (hmem n hn))
  have hheld₁ : ∀ o ∈ findNodes hash k R.nodes, o ∈ R'.nodes →
      (w₁.node o.nodeAddress).ht.get? k ≠ none := fun o ho ho' =>
    hr.keeps (mem_findNodes_of_old hsub ho ho') (hheld o ho ho').ne_none
  refine ⟨w₁, hw₁, iterated_iff hnodup hring hw₁, fun o ho ho' => holds_of_decodes (hheld₁ o ho ho')
    (hdecodes₁ o (mem_findNodes_of_old hsub ho ho')), fun ring w₂ hsteps => ?_⟩
  have hdecodes₂ : ∀ n ∈ findNodes hash k R'.nodes, ∀ text,
      (w₂.node n.nodeAddress).ht.get? k = some text → Decodes text value := by
    intro n hn
    have hcopies : WritesOnly w₁ k fun c m => c = n.nodeAddress → Decodes m.value value := by
      refine hr.copies_decode hwire (hquiet n (hmem n hn)) fun a ha text htext => ?_
      obtain ⟨n', hn', rfl⟩ := hmember ha
      exact hvalue n' hn' text htext
    exact decodes_delivered (w := w₁.setRings ring) hcopies hsteps (hdecodes₁ n hn)
  constructor
  · intro o ho ho'
    have hkept := kept_delivered (w := w₁.setRings ring) (hr.no_delete hwire (hquiet o ho')) hsteps
      (hheld₁ o ho ho')
    exact holds_of_decodes hkept (hdecodes₂ o (mem_findNodes_of_old hsub ho ho'))
  · intro hdone n hn
    constructor
    · intro hreplica
      obtain ⟨n₀, n₁, n₂, hnew⟩ := findNodes_of_three hash R'.three k
      have hserved := served_by_first hb hr (fun a => mem_surviving_of_subset hsub hperm) hnew
        (hsub n₀ (hmem n₀ (by rw [hnew]; simp))) n (by rwa [hnew] at hreplica)
      have hserved₂ := Served.delivered (w := w₁.setRings ring)
        (hr.no_delete hwire (hquiet n hn)) hsteps hserved
      exact holds_of_decodes (hserved₂.get?_ne_none (hdone n hn)) (hdecodes₂ n hreplica)
    · intro hnot
      have hnone : (w.node n.nodeAddress).ht.get? k = none :=
        hothers n hn fun hold => hnot (mem_findNodes_of_old hsub hold hn)
      have hcreates := hr.no_create hwire (hquiet n hn) fun m hm haddr => hnot <| by
        obtain rfl := R'.eq_of_nodeAddress (hmem m hm) hn haddr
        exact hm
      exact lacking_delivered (w := w₁.setRings ring) hcreates hsteps (hr.lacking _ hnone)

/-! ## Failures and joins together -/

/-- A survivor other than the second new replica holds the key, or the third one does. -/
def ThirdIsServed (hash : Str → Nat) (R : ProperRing) (R' : SortedRing) (k : Str) (w : World) :
    Prop :=
  ∀ n₀ n₁ n₂, findNodes hash k R'.nodes = [n₀, n₁, n₂] →
    (∃ a ∈ surviving R R', a ≠ n₁.nodeAddress ∧ (w.node a).ht.get? k ≠ none) ∨
      (w.node n₂.nodeAddress).ht.get? k ≠ none

/-- Nothing reaches the third replica from the second one. -/
theorem third_not_served (hr : Rebalancing hash R R' k survivors w [] w₁) (hwire : Wire w)
    (hnew : findNodes hash k R'.nodes = [n₀, n₁, n₂]) (hquiet : NoWriteTo w k n₂.nodeAddress)
    (hholders : ∀ a ∈ survivors, (w.node a).ht.get? k ≠ none → a = n₁.nodeAddress) :
    WritesOnly w₁ k fun c m => c = n₂.nodeAddress → m.type ≠ .create := by
  obtain ⟨h₀₁, h₀₂, h₁₂⟩ := address_ne hnew
  rintro c s hs uninit m hm hwrites rfl
  obtain ⟨server, hserver, kept, copies, hplan, hentry, copy, hcopy, hto, -⟩ :=
    hr.copy_of_pending hwire hquiet hs hm hwrites
  obtain rfl := hholders server hserver (by simp [hentry])
  exfalso
  cases hplan with
  | stranger m₀ m₁ m₂ hm _ hne =>
      obtain ⟨rfl, rfl, rfl⟩ : n₀ = m₀ ∧ n₁ = m₁ ∧ n₂ = m₂ := by simpa [hnew] using hm
      exact hne rfl
  | primary m₀ m₁ m₂ o₀ o₁ o₂ hm hold hself =>
      obtain ⟨rfl, rfl, rfl⟩ : n₀ = m₀ ∧ n₁ = m₁ ∧ n₂ = m₂ := by simpa [hnew] using hm
      exact h₀₁ hself
  | secondary m₀ m₁ m₂ o₀ o₁ o₂ oldPred hm =>
      obtain ⟨rfl, rfl, rfl⟩ : n₀ = m₀ ∧ n₁ = m₁ ∧ n₂ = m₂ := by simpa [hnew] using hm
      rcases Copy.toAddr_ofSecondary hcopy with h | h
      · exact h₁₂ (h.symm.trans hto)
      · exact h₀₂ (h.symm.trans hto)
  | tertiary m₀ m₁ m₂ p₂ p₁ hm hself =>
      obtain ⟨rfl, rfl, rfl⟩ : n₀ = m₀ ∧ n₁ = m₁ ∧ n₂ = m₂ := by simpa [hnew] using hm
      exact h₁₂ hself.symm

/-- After failures and joins, all survivors come to the end of their loops when none of them erases
anything, and then the three new replicas hold the key when somebody could tell the third one. -/
theorem replicated_iff (hb : HeldBefore hash R R' k w)
    (hperm : survivors.Perm (surviving R R'))
    (hring : ∀ a ∈ survivors, (w.node a).ring = R.nodes) :
    ((w.stabilizeAll hash survivors R'.nodes).isSome = true ↔
      ∀ a ∈ survivors, ErasesNothing hash a R'.nodes w) ∧
    ∀ w₁, w.stabilizeAll hash survivors R'.nodes = some w₁ →
      ∀ ring w₂, Steps hash Delivering (w₁.setRings ring) w₂ →
        (∀ n ∈ R'.nodes, NoWriteTo w₂ k n.nodeAddress) →
        ((∀ n ∈ findNodes hash k R'.nodes, (w₂.node n.nodeAddress).ht.get? k ≠ none) ↔
          ThirdIsServed hash R R' k w) := by
  have hsurvivors : ∀ a, a ∈ survivors ↔ a ∈ surviving R R' := fun a => hperm.mem_iff
  have hself : ∀ a ∈ survivors, ∃ n ∈ R.nodes, n.nodeAddress = a := by
    intro a ha
    obtain ⟨n, hn, -, haddr⟩ := mem_surviving.mp ((hsurvivors a).mp ha)
    exact ⟨n, hn, haddr⟩
  have hnodup := hperm.nodup_iff.mpr (nodup_surviving R R')
  obtain ⟨v, hv, hr⟩ := rebalanced hash R' hnodup hself hring k
  have hiterated := iterated_iff hnodup hring hv
  constructor
  · rw [Option.isSome_iff_exists]
    constructor
    · rintro ⟨v', hv'⟩
      exact ((hiterated v').mp hv').2
    · intro herases
      exact ⟨v, (hiterated v).mpr ⟨rfl, herases⟩⟩
  intro w₁ hw₁ ring w₂ hsteps hdone
  obtain rfl := ((hiterated w₁).mp hw₁).1
  obtain ⟨n₀, n₁, n₂, hnew⟩ := findNodes_of_three hash R'.three k
  have hmem : ∀ n ∈ findNodes hash k R'.nodes, n ∈ R'.nodes := fun n hn =>
    R'.mem_of_mem_findNodes hn
  have hmem₂ : n₂ ∈ findNodes hash k R'.nodes := by rw [hnew]; simp
  constructor
  · intro hall m₀ m₁ m₂ hm
    obtain ⟨rfl, rfl, rfl⟩ : n₀ = m₀ ∧ n₁ = m₁ ∧ n₂ = m₂ := by simpa [hnew] using hm
    by_contra hnot
    rw [not_or, not_not] at hnot
    obtain ⟨hnobody, hnone⟩ := hnot
    have hholders : ∀ a ∈ survivors, (w.node a).ht.get? k ≠ none → a = n₁.nodeAddress := by
      intro a ha hheld
      by_contra hne
      exact hnobody ⟨a, (hsurvivors a).mp ha, hne, hheld⟩
    have hcreates := third_not_served hr hb.wire hnew (hb.quiet n₂ (hmem n₂ hmem₂)) hholders
    exact hall n₂ hmem₂
      (lacking_delivered (w := w₁.setRings ring) hcreates hsteps (hr.lacking _ hnone))
  · intro hserved n hn
    have hthree : ∀ n ∈ [n₀, n₁, n₂], Served w₁ k n.nodeAddress := by
      rcases hserved n₀ n₁ n₂ hnew with ⟨a, ha, hne, hheld⟩ | hheld
      · exact served_by_holder hb hr hsurvivors hnew ((hsurvivors a).mpr ha) hheld (Or.inl hne)
      · obtain ⟨o, ho, ho'⟩ := hb.survivor
        have holder := mem_surviving.mpr ⟨o, R.sortedRing.mem_of_mem_findNodes ho, ho', rfl⟩
        exact served_by_holder hb hr hsurvivors hnew ((hsurvivors _).mpr holder) (hb.held o ho ho')
          (Or.inr hheld)
    have hserved₂ := Served.delivered (w := w₁.setRings ring)
      (hr.no_delete hb.wire (hb.quiet n (hmem n hn))) hsteps (hthree n (by rwa [hnew] at hn))
    exact hserved₂.get?_ne_none (hdone n (hmem n hn))

/-! ## A run of four nodes -/

theorem noWriteTo_of_pending (h : w.pending b = []) : NoWriteTo w k b := by
  intro s hs
  rw [h] at hs
  cases hs

namespace RecoveryRun

def ring (ids : List Nat) : List Node := sortNodes (getMembershipList sampleHash (members ids))

def oldRing : ProperRing :=
  ⟨ring [1, 110, 111, 112], by decide +kernel, by decide +kernel, by decide +kernel,
    by decide +kernel⟩

/-- Nodes `110` and `111` have failed, `108` and `113` have joined. -/
def newRing : SortedRing :=
  ⟨ring [1, 108, 112, 113], by decide +kernel, by decide +kernel, by decide +kernel⟩

def smallRing : SortedRing :=
  ⟨ring [1, 110, 112], by decide +kernel, by decide +kernel, by decide +kernel⟩

def createActions : List Action :=
  let create : Message := ⟨.create, .primary, ['k'], ['u'], sampleNode 1, 1, false⟩
  let reply (i : Nat) : Message := ⟨.reply, .primary, [], [], sampleNode i, 1, true⟩
  [1, 110, 111, 112].map (fun i => .updateRing (sampleNode i) (members [1, 110, 111, 112])) ++
  [.client (sampleNode 1) .primary (.create ['k'] ['u'])] ++
  [110, 111, 112].map (fun i => .receive (create.packet (sampleNode i))) ++
  [110, 111, 112].map (fun i => .checkMessages (sampleNode i) .primary) ++
  [110, 111, 112].map (fun i => .receive ((reply i).packet (sampleNode 1))) ++
  [.checkMessages (sampleNode 1) .primary, .tick]

def created : World :=
  (initial.follow sampleHash Anything createActions).get (by decide +kernel)

theorem wire_created : Wire created :=
  wire_initial.steps (show Steps sampleHash Anything initial created from
    steps_of_follow (Option.some_get _).symm)

def moved : World :=
  (created.stabilizeAll sampleHash [sampleNode 1, sampleNode 112] newRing.nodes).get
    (by decide +kernel)

def answered : World :=
  ((moved.setRings fun _ => newRing.nodes).follow sampleHash Delivering
    (deliver moved [108, 112])).get (by decide +kernel)

def settled : World :=
  (answered.follow sampleHash Delivering (deliver answered [112])).get (by decide +kernel)

end RecoveryRun

open RecoveryRun

/-- The only old replica that is left is the second new one, and the third new one gets nothing. -/
theorem third_replica_missing :
    (∀ o ∈ findNodes sampleHash ['k'] oldRing.nodes, Holds created o.nodeAddress ['k'] ['u']) ∧
    (∀ a ∈ surviving oldRing newRing, (created.node a).ring = oldRing.nodes) ∧
    created.stabilizeAll sampleHash (surviving oldRing newRing) newRing.nodes =
      some moved ∧
    Steps sampleHash Delivering (moved.setRings fun _ => newRing.nodes) settled ∧
    (∀ n ∈ newRing.nodes, settled.pending n.nodeAddress = []) ∧
    ∃ n ∈ findNodes sampleHash ['k'] newRing.nodes,
      (settled.node n.nodeAddress).ht.get? ['k'] = none := by
  have hrun : created.stabilizeAll sampleHash (surviving oldRing newRing)
      newRing.nodes = some moved := by
    have hlist : surviving oldRing newRing = [sampleNode 1, sampleNode 112] := by decide +kernel
    rw [hlist]
    exact (Option.some_get _).symm
  have hsteps : Steps sampleHash Delivering (moved.setRings fun _ => newRing.nodes) settled :=
    (steps_of_follow (Option.some_get _).symm).trans
      (steps_of_follow (w := answered) (Option.some_get _).symm)
  exact ⟨by decide +kernel, by decide +kernel, hrun, hsteps, by decide +kernel, by decide +kernel⟩

theorem replicated_iff_fourNodes :
    ((created.stabilizeAll sampleHash (surviving oldRing newRing) newRing.nodes).isSome =
      true ↔ ∀ a ∈ surviving oldRing newRing, ErasesNothing sampleHash a newRing.nodes created) ∧
    ∀ w₁, created.stabilizeAll sampleHash (surviving oldRing newRing) newRing.nodes =
        some w₁ →
      ∀ ring w₂, Steps sampleHash Delivering (w₁.setRings ring) w₂ →
        (∀ n ∈ newRing.nodes, NoWriteTo w₂ ['k'] n.nodeAddress) →
        ((∀ n ∈ findNodes sampleHash ['k'] newRing.nodes,
            (w₂.node n.nodeAddress).ht.get? ['k'] ≠ none) ↔
          ThirdIsServed sampleHash oldRing newRing ['k'] created) :=
  replicated_iff
    { wire := wire_created
      consistent := by decide +kernel
      survivor := by decide +kernel
      held := by decide +kernel
      quiet := fun n hn => noWriteTo_of_pending <|
        (show ∀ n ∈ newRing.nodes, created.pending n.nodeAddress = [] by decide +kernel) n hn }
    (List.Perm.refl _) (by decide +kernel)

theorem stabilization_after_failures_fourNodes :
    ∃ w₁, created.stabilizeAllKeys sampleHash [sampleNode 112, sampleNode 1, sampleNode 110]
        smallRing.nodes = some w₁ ∧
      (∀ v, created.stabilizeAll sampleHash [sampleNode 112, sampleNode 1,
          sampleNode 110] smallRing.nodes = some v ↔
        v = w₁ ∧ ∀ a ∈ [sampleNode 112, sampleNode 1, sampleNode 110],
          ErasesNothing sampleHash a smallRing.nodes created) ∧
      (∀ o ∈ findNodes sampleHash ['k'] oldRing.nodes, o ∈ smallRing.nodes →
        Holds w₁ o.nodeAddress ['k'] ['u']) ∧
      ∀ ring w₂, Steps sampleHash Delivering (w₁.setRings ring) w₂ →
        (∀ o ∈ findNodes sampleHash ['k'] oldRing.nodes, o ∈ smallRing.nodes →
          Holds w₂ o.nodeAddress ['k'] ['u']) ∧
        ((∀ n ∈ smallRing.nodes, NoWriteTo w₂ ['k'] n.nodeAddress) → ∀ n ∈ smallRing.nodes,
          (n ∈ findNodes sampleHash ['k'] smallRing.nodes →
            Holds w₂ n.nodeAddress ['k'] ['u']) ∧
          (n ∉ findNodes sampleHash ['k'] smallRing.nodes →
            (w₂.node n.nodeAddress).ht.get? ['k'] = none)) :=
  stabilization_after_failures (by decide +kernel) wire_created
    (fun n hn => noWriteTo_of_pending <|
      (show ∀ n ∈ smallRing.nodes, created.pending n.nodeAddress = [] by decide +kernel) n hn)
    (by decide +kernel) (by decide +kernel) (by decide +kernel) (by decide +kernel)
    (by decide +kernel)

end World

end CloudComputing.KeyValueStore
