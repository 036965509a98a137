import Callhouse.Lib.OrderedMap
import Mathlib.Logic.Relation
import Mathlib.Tactic

/-
  Union-find over a map from nodes to parents, with path
  compression and no ranks.  A node without an entry is alone.

  Main declarations:
    * `UnionFind.find`, `UnionFind.union`
    * `UnionFind.Represents`
    * `UnionFind.find_spec`
    * `UnionFind.Represents.union`
    * `UnionFind.Represents.connected_iff`
-/

----
-- Parent Maps
----

namespace UnionFind

section

variable {α : Type} [DecidableEq α]

/- A node without a parent is its own. -/
def parentOf
    (p : OrderedMap α α)
    (v : α) : α :=
  p.getD v v

/- The root of a node, and the map with its path compressed. -/
def findWithin
    (p : OrderedMap α α) : Nat → α → α × OrderedMap α α
  | 0, v => (v, p)
  | fuel + 1, v =>
      match p.get? v with
      | none => (v, p.set v v)
      | some w =>
          if w = v then (v, p)
          else
            let root := findWithin p fuel w
            (root.1, root.2.set v root.1)

/- No path is longer than the map. -/
def find
    (p : OrderedMap α α)
    (v : α) : α × OrderedMap α α :=
  findWithin p (p.entries.length + 1) v

/- The second node's root goes under the first one's. -/
def union
    (p : OrderedMap α α)
    (a b : α) : OrderedMap α α :=
  let first := find p a
  let second := find first.2 b
  if first.1 ≠ second.1 then second.2.set second.1 first.1
  else second.2

def connected
    (p : OrderedMap α α)
    (a b : α) : Bool :=
  p.has a && p.has b &&
    decide ((find p a).1 = (find (find p a).2 b).1)

/- A node's path to its root has `n` links. -/
inductive RootIn
    (p : OrderedMap α α) : α → α → Nat → Prop where
  | root
      {v : α}
      (h : parentOf p v = v) :
      RootIn p v v 0
  | link
      {v r : α}
      {n : Nat}
      (hMore : parentOf p v ≠ v)
      (h : RootIn p (parentOf p v) r n) :
      RootIn p v r (n + 1)

def Reaches
    (p : OrderedMap α α)
    (v r : α) : Prop :=
  ∃ n, RootIn p v r n

/- No path runs in a circle. -/
def Forest
    (p : OrderedMap α α) : Prop :=
  ∀ v, ∃ r, Reaches p v r

def Same
    (p : OrderedMap α α)
    (a b : α) : Prop :=
  ∃ r, Reaches p a r ∧ Reaches p b r

variable {p q : OrderedMap α α} {v w r s : α} {n m : Nat}

theorem parentOf_set
    (p : OrderedMap α α)
    (v r w : α) :
    parentOf (p.set v r) w =
      if v = w then r else parentOf p w := by
  unfold parentOf
  rw [OrderedMap.getD_set]

theorem RootIn.root_eq
    (h : RootIn p v r n) :
    parentOf p r = r := by
  induction h with
  | root h => exact h
  | link _ _ ih => exact ih

theorem RootIn.unique
    (h : RootIn p v r n)
    (h' : RootIn p v s m) :
    r = s ∧ n = m := by
  induction h generalizing m with
  | root h =>
      cases h' with
      | root _ => exact ⟨rfl, rfl⟩
      | link hMore _ => exact absurd h hMore
  | link hMore _ ih =>
      cases h' with
      | root h => exact absurd h hMore
      | link _ hRest =>
          rcases ih hRest with ⟨hRoot, hLength⟩
          exact ⟨hRoot, by rw [hLength]⟩

theorem Reaches.unique
    (h : Reaches p v r)
    (h' : Reaches p v s) :
    r = s := by
  rcases h with ⟨n, h⟩
  rcases h' with ⟨m, h'⟩
  exact (h.unique h').1

theorem Reaches.root_eq
    (h : Reaches p v r) :
    parentOf p r = r := by
  rcases h with ⟨n, h⟩
  exact h.root_eq

theorem reaches_root
    (h : parentOf p v = v) :
    Reaches p v v :=
  ⟨0, .root h⟩

theorem Reaches.link
    (hMore : parentOf p v ≠ v)
    (h : Reaches p (parentOf p v) r) :
    Reaches p v r := by
  rcases h with ⟨n, h⟩
  exact ⟨n + 1, .link hMore h⟩

/-
  A path's inner nodes are distinct keys of the map: each is
  at its own distance from the root.
-/
theorem RootIn.nodes
    (h : RootIn p v r n) :
    ∃ nodes : List α,
      nodes.length = n ∧ nodes.Nodup ∧
        nodes ⊆ p.entries.map Prod.fst ∧
          ∀ w ∈ nodes, ∃ m ≤ n, RootIn p w r m := by
  induction h with
  | root h => exact ⟨[], rfl, List.nodup_nil, by simp, by simp⟩
  | @link v r n hMore hRest ih =>
      rcases ih with ⟨nodes, hLength, hNodup, hKeys, hNear⟩
      refine ⟨v :: nodes, ?_, ?_, ?_, ?_⟩
      · rw [List.length_cons, hLength]
      · rw [List.nodup_cons]
        refine ⟨?_, hNodup⟩
        intro hIn
        rcases hNear v hIn with ⟨m, hm, hRoot⟩
        have hSame := (hRoot.unique (.link hMore hRest)).2
        omega
      · intro w hw
        rcases List.mem_cons.mp hw with rfl | hw
        · rw [← OrderedMap.has_iff]
          by_contra hNone
          apply hMore
          unfold parentOf OrderedMap.getD
          unfold OrderedMap.has at hNone
          rw [Bool.not_eq_true, Option.isSome_eq_false_iff,
            Option.isNone_iff_eq_none] at hNone
          rw [hNone]
          rfl
        · exact hKeys hw
      · intro w hw
        rcases List.mem_cons.mp hw with rfl | hw
        · exact ⟨n + 1, le_refl _, .link hMore hRest⟩
        · rcases hNear w hw with ⟨m, hm, hRoot⟩
          exact ⟨m, by omega, hRoot⟩

theorem RootIn.length_le
    (h : RootIn p v r n) :
    n ≤ p.entries.length := by
  rcases h.nodes with ⟨nodes, hLength, hNodup, hKeys, _⟩
  have hLe := (hNodup.subperm hKeys).length_le
  rw [List.length_map] at hLe
  omega

/- A map with the same roots has no others. -/
theorem reaches_iff
    (hForest : Forest p)
    (hKept : ∀ u s, Reaches p u s → Reaches q u s)
    (u s : α) :
    Reaches q u s ↔ Reaches p u s := by
  constructor
  · intro h
    rcases hForest u with ⟨t, ht⟩
    rw [h.unique (hKept u t ht)]
    exact ht
  · exact hKept u s

/- Pointing a node at its root moves no root. -/
theorem reaches_compress
    (hRoot : Reaches p v r)
    (hNot : r ≠ v) :
    ∀ u s, Reaches p u s → Reaches (p.set v r) u s := by
  have hTop : Reaches (p.set v r) r r := by
    apply reaches_root
    rw [parentOf_set, if_neg (fun h => hNot h.symm)]
    exact hRoot.root_eq
  rintro u s ⟨n, h⟩
  induction h with
  | @root u h =>
      by_cases hSame : v = u
      · subst hSame
        exact absurd (hRoot.unique (reaches_root h)) hNot
      · apply reaches_root
        rw [parentOf_set, if_neg hSame]
        exact h
  | @link u s n hMore hRest ih =>
      by_cases hSame : v = u
      · subst hSame
        have hEq : r = s :=
          hRoot.unique (Reaches.link hMore ⟨n, hRest⟩)
        subst hEq
        apply Reaches.link
        · rw [parentOf_set, if_pos rfl]
          exact hNot
        · rw [parentOf_set, if_pos rfl]
          exact hTop
      · apply Reaches.link
        · rw [parentOf_set, if_neg hSame]
          exact hMore
        · rw [parentOf_set, if_neg hSame]
          exact ih

/- Writing a node's own parent again moves nothing. -/
theorem reaches_set_self
    (h : parentOf p v = w) :
    ∀ u s, Reaches p u s → Reaches (p.set v w) u s := by
  have hSame : ∀ u, parentOf (p.set v w) u = parentOf p u := by
    intro u
    rw [parentOf_set]
    split
    · next hEq =>
        rw [← hEq]
        exact h.symm
    · rfl
  rintro u s ⟨n, hPath⟩
  induction hPath with
  | root hRoot =>
      apply reaches_root
      rw [hSame]
      exact hRoot
  | link hMore _ ih =>
      apply Reaches.link
      · rw [hSame]
        exact hMore
      · rw [hSame]
        exact ih

end

----
-- Finding and Joining
----

variable {α : Type} [DecidableEq α]
variable {p q : OrderedMap α α} {v w r s : α} {n : Nat}

/- The map afterwards has the same roots and no fewer keys. -/
structure Compressed
    (p q : OrderedMap α α) : Prop where
  kept : ∀ u s, Reaches p u s → Reaches q u s
  keys : ∀ u, p.has u = true → q.has u = true

theorem findWithin_spec
    (p : OrderedMap α α)
    (fuel : Nat)
    (hRoot : RootIn p v r n)
    (hFuel : n < fuel) :
    (findWithin p fuel v).1 = r ∧
      Compressed p (findWithin p fuel v).2 ∧
        (findWithin p fuel v).2.has v = true := by
  induction fuel generalizing v n with
  | zero => omega
  | succ fuel ih =>
      unfold findWithin
      cases hGet : p.get? v with
      | none =>
          have hSelf : parentOf p v = v := by
            unfold parentOf OrderedMap.getD
            rw [hGet]
            rfl
          refine ⟨?_, ⟨reaches_set_self hSelf, ?_⟩, ?_⟩
          · exact ((RootIn.root hSelf).unique hRoot).1
          · exact fun u hu => (OrderedMap.has_set p v v u).mpr (.inr hu)
          · exact (OrderedMap.has_set p v v v).mpr (.inl rfl)
      | some w =>
          have hParent : parentOf p v = w := by
            unfold parentOf OrderedMap.getD
            rw [hGet]
            rfl
          by_cases hSelf : w = v
          · subst hSelf
            simp only [if_true]
            refine ⟨?_, ⟨fun u s h => h, fun u h => h⟩, ?_⟩
            · exact ((RootIn.root hParent).unique hRoot).1
            · unfold OrderedMap.has
              rw [hGet]
              rfl
          · simp only [if_neg hSelf]
            cases hRoot with
            | root hTop => exact absurd (hParent ▸ hTop) hSelf
            | @link _ _ k hMore hRest =>
                rw [hParent] at hRest
                rcases ih hRest (by omega) with
                  ⟨hFound, hKept, _⟩
                have hReach : Reaches p v r :=
                  Reaches.link hMore ⟨k, hParent.symm ▸ hRest⟩
                have hNot : r ≠ v := by
                  rintro rfl
                  exact hMore hReach.root_eq
                refine ⟨hFound, ⟨?_, ?_⟩, ?_⟩
                · intro u s hu
                  rw [hFound]
                  exact
                    reaches_compress (hKept.kept v r hReach)
                      hNot u s (hKept.kept u s hu)
                · exact fun u hu =>
                    (OrderedMap.has_set _ _ _ u).mpr
                      (.inr (hKept.keys u hu))
                · exact (OrderedMap.has_set _ _ _ v).mpr (.inl rfl)

/- Finding answers the root and changes nobody's. -/
theorem find_spec
    (hRoot : Reaches p v r) :
    (find p v).1 = r ∧ Compressed p (find p v).2 ∧
      (find p v).2.has v = true := by
  rcases hRoot with ⟨n, hRoot⟩
  exact
    findWithin_spec p _ hRoot
      (Nat.lt_succ_of_le hRoot.length_le)

/- One root goes under another: its tree changes root. -/
theorem reaches_join
    (hTop : parentOf p r = r)
    (hBelow : parentOf p s = s)
    (hNe : r ≠ s) :
    ∀ u t, Reaches p u t →
      Reaches (p.set s r) u (if t = s then r else t) := by
  have hRoot : Reaches (p.set s r) r r := by
    apply reaches_root
    rw [parentOf_set, if_neg (fun h => hNe h.symm)]
    exact hTop
  rintro u t ⟨n, h⟩
  induction h with
  | @root u h =>
      by_cases hSame : u = s
      · subst hSame
        rw [if_pos rfl]
        apply Reaches.link
        · rw [parentOf_set, if_pos rfl]
          exact hNe
        · rw [parentOf_set, if_pos rfl]
          exact hRoot
      · rw [if_neg hSame]
        apply reaches_root
        rw [parentOf_set, if_neg (fun h => hSame h.symm)]
        exact h
  | @link u t n hMore hRest ih =>
      have hOther : s ≠ u := by
        rintro rfl
        exact hMore hBelow
      apply Reaches.link
      · rw [parentOf_set, if_neg hOther]
        exact hMore
      · rw [parentOf_set, if_neg hOther]
        exact ih

/-
  The map stands for the least equivalence of the edges put
  into it, and knows both ends of each.
-/
structure Represents
    (p : OrderedMap α α)
    (edge : α → α → Prop) : Prop where
  forest : Forest p
  sound : ∀ a b, Same p a b → Relation.EqvGen edge a b
  complete : ∀ a b, edge a b → Same p a b
  ends : ∀ a b, edge a b → p.has a = true ∧ p.has b = true

theorem Same.refl
    (hForest : Forest p)
    (a : α) :
    Same p a a := by
  rcases hForest a with ⟨r, hr⟩
  exact ⟨r, hr, hr⟩

variable {a b : α}

theorem Same.symm
    (h : Same p a b) :
    Same p b a := by
  rcases h with ⟨r, ha, hb⟩
  exact ⟨r, hb, ha⟩

theorem Same.trans
    {c : α}
    (h : Same p a b)
    (h' : Same p b c) :
    Same p a c := by
  rcases h with ⟨r, ha, hb⟩
  rcases h' with ⟨s, hb', hc⟩
  rw [hb'.unique hb] at hc
  exact ⟨r, ha, hc⟩

variable {edge : α → α → Prop}

theorem Represents.same_iff
    (h : Represents p edge)
    (a b : α) :
    Same p a b ↔ Relation.EqvGen edge a b := by
  refine ⟨h.sound a b, ?_⟩
  intro hEqv
  induction hEqv with
  | rel a b hEdge => exact h.complete a b hEdge
  | refl a => exact Same.refl h.forest a
  | symm a b _ ih => exact ih.symm
  | trans a b c _ _ ih ih' => exact ih.trans ih'

theorem represents_empty :
    Represents (OrderedMap.empty : OrderedMap α α)
      (fun _ _ => False) where
  forest := fun v => ⟨v, reaches_root rfl⟩
  sound := by
    rintro a b ⟨r, ha, hb⟩
    have hSelf : ∀ x : α, Reaches OrderedMap.empty x x :=
      fun x => reaches_root rfl
    have ha' := ha.unique (hSelf a)
    have hb' := hb.unique (hSelf b)
    rw [← ha', hb']
    exact .refl _
  complete := fun a b h => h.elim
  ends := fun a b h => h.elim

/- Two finds, one after the other, answer both roots. -/
theorem find_find
    (ha : Reaches p a r)
    (hb : Reaches p b s) :
    (find p a).1 = r ∧ (find (find p a).2 b).1 = s ∧
      Compressed p (find (find p a).2 b).2 ∧
        (find (find p a).2 b).2.has a = true ∧
          (find (find p a).2 b).2.has b = true := by
  rcases find_spec ha with ⟨hFirst, hKept, hHas⟩
  rcases find_spec (hKept.kept b s hb) with
    ⟨hSecond, hKept', hHas'⟩
  exact
    ⟨hFirst, hSecond,
      ⟨fun u t h => hKept'.kept u t (hKept.kept u t h),
        fun u h => hKept'.keys u (hKept.keys u h)⟩,
      hKept'.keys a hHas, hHas'⟩

theorem Represents.union
    (h : Represents p edge)
    (a b : α) :
    Represents (UnionFind.union p a b)
      (fun x y => edge x y ∨ x = a ∧ y = b) := by
  rcases h.forest a with ⟨r, ha⟩
  rcases h.forest b with ⟨s, hb⟩
  rcases find_find ha hb with
    ⟨hFirst, hSecond, hKept, hHasA, hHasB⟩
  unfold UnionFind.union
  simp only [hFirst, hSecond]
  generalize (find (find p a).2 b).2 = q at *
  have hMono :
      ∀ x y, Relation.EqvGen edge x y →
        Relation.EqvGen
          (fun x y => edge x y ∨ x = a ∧ y = b) x y :=
    Relation.EqvGen.mono (fun x y hOld => Or.inl hOld)
  have hEdge :
      Relation.EqvGen
        (fun x y => edge x y ∨ x = a ∧ y = b) a b :=
    .rel a b (.inr ⟨rfl, rfl⟩)
  by_cases hSame : r = s
  · subst hSame
    simp only [ne_eq, not_true, if_false]
    exact
      { forest := fun v => by
          rcases h.forest v with ⟨t, ht⟩
          exact ⟨t, hKept.kept v t ht⟩
        sound := by
          rintro x y ⟨t, hx, hy⟩
          apply hMono
          apply h.sound
          exact
            ⟨t, (reaches_iff h.forest hKept.kept x t).mp hx,
              (reaches_iff h.forest hKept.kept y t).mp hy⟩
        complete := by
          rintro x y (hOld | ⟨rfl, rfl⟩)
          · rcases h.complete x y hOld with ⟨t, hx, hy⟩
            exact ⟨t, hKept.kept x t hx, hKept.kept y t hy⟩
          · exact ⟨r, hKept.kept x r ha, hKept.kept y r hb⟩
        ends := by
          rintro x y (hOld | ⟨rfl, rfl⟩)
          · rcases h.ends x y hOld with ⟨hx, hy⟩
            exact ⟨hKept.keys x hx, hKept.keys y hy⟩
          · exact ⟨hHasA, hHasB⟩ }
  · simp only [ne_eq, hSame, not_false_eq_true, if_true]
    have hJoin :
        ∀ u t, Reaches p u t →
          Reaches (q.set s r) u (if t = s then r else t) := by
      intro u t hu
      exact
        reaches_join (hKept.kept a r ha).root_eq
          (hKept.kept b s hb).root_eq hSame u t
          (hKept.kept u t hu)
    have hInTree :
        ∀ u t, Reaches p u t → t = r ∨ t = s →
          Relation.EqvGen
            (fun x y => edge x y ∨ x = a ∧ y = b) u a := by
      intro u t hu ht
      rcases ht with rfl | rfl
      · exact hMono _ _ (h.sound u a ⟨_, hu, ha⟩)
      · exact
          (hMono _ _ (h.sound u b ⟨_, hu, hb⟩)).trans _ _ _
            (hEdge.symm _ _)
    exact
      { forest := fun v => by
          rcases h.forest v with ⟨t, ht⟩
          exact ⟨_, hJoin v t ht⟩
        sound := by
          rintro x y ⟨t, hx, hy⟩
          rcases h.forest x with ⟨tx, htx⟩
          rcases h.forest y with ⟨ty, hty⟩
          have hxEq := (hJoin x tx htx).unique hx
          have hyEq := (hJoin y ty hty).unique hy
          by_cases hTree : t = r
          · subst hTree
            have hxTree : tx = t ∨ tx = s := by
              split at hxEq
              · next hs => exact .inr hs
              · exact .inl hxEq
            have hyTree : ty = t ∨ ty = s := by
              split at hyEq
              · next hs => exact .inr hs
              · exact .inl hyEq
            exact
              (hInTree x tx htx hxTree).trans _ _ _
                ((hInTree y ty hty hyTree).symm _ _)
          · have hxSame : tx = t := by
              split at hxEq
              · exact absurd hxEq.symm hTree
              · exact hxEq
            have hySame : ty = t := by
              split at hyEq
              · exact absurd hyEq.symm hTree
              · exact hyEq
            subst hxSame
            subst hySame
            exact hMono _ _ (h.sound x y ⟨_, htx, hty⟩)
        complete := by
          rintro x y (hOld | ⟨rfl, rfl⟩)
          · rcases h.complete x y hOld with ⟨t, hx, hy⟩
            exact ⟨_, hJoin x t hx, hJoin y t hy⟩
          · have hx := hJoin x r ha
            have hy := hJoin y s hb
            rw [if_neg hSame] at hx
            rw [if_pos rfl] at hy
            exact ⟨r, hx, hy⟩
        ends := by
          rintro x y (hOld | ⟨rfl, rfl⟩)
          · rcases h.ends x y hOld with ⟨hx, hy⟩
            exact
              ⟨(OrderedMap.has_set _ _ _ x).mpr (.inr (hKept.keys x hx)),
                (OrderedMap.has_set _ _ _ y).mpr (.inr (hKept.keys y hy))⟩
          · exact
              ⟨(OrderedMap.has_set _ _ _ x).mpr (.inr hHasA),
                (OrderedMap.has_set _ _ _ y).mpr (.inr hHasB)⟩ }

omit [DecidableEq α] in
/- Nodes of one class that differ are ends of edges. -/
theorem ends_of_eqvGen
    (h : Relation.EqvGen edge a b) :
    a = b ∨
      (∃ c, edge a c ∨ edge c a) ∧ ∃ c, edge b c ∨ edge c b := by
  induction h with
  | rel a b hEdge => exact .inr ⟨⟨b, .inl hEdge⟩, a, .inr hEdge⟩
  | refl a => exact .inl rfl
  | symm a b _ ih =>
      rcases ih with rfl | ⟨ha, hb⟩
      · exact .inl rfl
      · exact .inr ⟨hb, ha⟩
  | trans a b c _ _ ih ih' =>
      rcases ih with rfl | ⟨ha, hb⟩
      · exact ih'
      · rcases ih' with rfl | ⟨_, hc⟩
        · exact .inr ⟨ha, hb⟩
        · exact .inr ⟨ha, hc⟩

/- Two nodes are connected when edges lead from one to the other. -/
theorem Represents.connected_iff
    (h : Represents p edge)
    (hNe : a ≠ b) :
    UnionFind.connected p a b = true ↔
      Relation.EqvGen edge a b := by
  rcases h.forest a with ⟨r, ha⟩
  rcases h.forest b with ⟨s, hb⟩
  rcases find_find ha hb with ⟨hFirst, hSecond, _⟩
  rw [← h.same_iff]
  unfold UnionFind.connected
  rw [Bool.and_eq_true, Bool.and_eq_true, decide_eq_true_eq,
    hFirst, hSecond]
  constructor
  · rintro ⟨_, rfl⟩
    exact ⟨r, ha, hb⟩
  · intro hSame
    have hKnown :
        ∀ x, (∃ c, edge x c ∨ edge c x) → p.has x = true := by
      rintro x ⟨c, hEdge | hEdge⟩
      · exact (h.ends x c hEdge).1
      · exact (h.ends c x hEdge).2
    rcases ends_of_eqvGen (h.sound a b hSame) with
      hEq | ⟨haEnd, hbEnd⟩
    · exact absurd hEq hNe
    · rcases hSame with ⟨t, hat, hbt⟩
      refine ⟨⟨hKnown a haEnd, hKnown b hbEnd⟩, ?_⟩
      rw [ha.unique hat, hb.unique hbt]

end UnionFind
