import Nomalloc.Lib.CircList

/-!
# Loops over a circular list

The two loops over a list whose nodes live in the state that the body changes.  A loop is given a
number of rounds; `none` is a loop that has not come to its end in that many, has met NULL, or
whose body fails.

* `forEach`      reads the successor of a node after the body has run on it;
* `forEachSafe`  reads it before, and `stop` breaks off.

`forEach_upTo` and `forEachSafe_path` are the rules: while the body leaves alone the pointers that
are still to be followed, the loop is a fold over the nodes.  An invariant is indexed by the nodes
that are still ahead.  `forEach_mono` says that more rounds change nothing, `foldUntil_prefix` how
far a fold goes that stops.
-/

variable {σ ν : Type*} [DecidableEq ν]

/-- `for (pos = head->next; pos != head; pos = pos->next) body`, from the pointer `pos` on, with
the nodes visited. -/
def forEach (links : σ → Links ν) (head : ν) (body : σ → ν → Option σ) :
    ℕ → Option ν → σ → Option (List ν × σ)
  | 0, _, _ => none
  | _ + 1, none, _ => none
  | k + 1, some pos, s =>
    if pos = head then some ([], s)
    else (body s pos).bind fun s' =>
      (forEach links head body k ((links s').next pos) s').map fun r => (pos :: r.1, r.2)

/-- `for (pos = head->next, n = pos->next; pos != head; pos = n, n = n->next)
{ if (stop) break; body }`, from the pointers `pos` and `n` on. -/
def forEachSafe (links : σ → Links ν) (head : ν) (stop : σ → Bool) (body : σ → ν → Option σ) :
    ℕ → Option ν → Option ν → σ → Option σ
  | 0, _, _, _ => none
  | _ + 1, none, _, _ => none
  | k + 1, some pos, n, s =>
    if pos = head then some s
    else if stop s then some s
    else (body s pos).bind fun s' =>
      n.bind fun n => forEachSafe links head stop body k (some n) ((links s').next n) s'

/-- A fold that stops. -/
def foldUntil (stop : σ → Bool) (g : σ → ν → σ) : σ → List ν → σ
  | s, [] => s
  | s, n :: ns => if stop s then s else foldUntil stop g (g s n) ns

omit [DecidableEq ν] in
/-- A fold over nodes that stand for something else. -/
theorem foldUntil_map {α : Type*} (stop : σ → Bool) (g : σ → ν → σ) (e : α → ν) (s : σ)
    (l : List α) : foldUntil stop g s (l.map e) = foldUntil stop (fun s a => g s (e a)) s l := by
  induction l generalizing s with
  | nil => rfl
  | cons a l ih =>
    show (if _ then _ else _) = if _ then _ else _
    rw [ih]

omit [DecidableEq ν] in
/-- What the invariant says when no node is ahead is true of the fold, if it does not stop. -/
theorem foldUntil_inv (g : σ → ν → σ) (Inv : List ν → σ → Prop)
    (hstep : ∀ n ns s, Inv (n :: ns) s → Inv ns (g s n)) {ns : List ν} {s : σ} (hinv : Inv ns s) :
    Inv [] (foldUntil (fun _ => false) g s ns) := by
  induction ns generalizing s with
  | nil => exact hinv
  | cons n ns ih => exact ih (hstep n ns s hinv)

omit [DecidableEq ν] in
/-- The fold goes through the nodes up to the first one at which it stops. -/
theorem foldUntil_prefix (stop : σ → Bool) (g : σ → ν → σ) (s : σ) (ns : List ν) :
    ∃ as bs, ns = as ++ bs ∧ foldUntil stop g s ns = as.foldl g s ∧
      (∀ p q, as = p ++ q → q ≠ [] → stop (p.foldl g s) = false) ∧
      (bs ≠ [] → stop (as.foldl g s) = true) := by
  induction ns generalizing s with
  | nil =>
    refine ⟨[], [], rfl, rfl, fun p q hpq hq => ?_, fun h => absurd rfl h⟩
    exact absurd (List.append_eq_nil_iff.mp hpq.symm).2 hq
  | cons n ns ih =>
    unfold foldUntil
    cases hs : stop s with
    | true =>
      refine ⟨[], n :: ns, rfl, if_pos rfl, fun p q hpq hq => ?_, fun _ => hs⟩
      exact absurd (List.append_eq_nil_iff.mp hpq.symm).2 hq
    | false =>
      obtain ⟨as, bs, hns, hfold, hgo, hstop⟩ := ih (g s n)
      refine ⟨n :: as, bs, by rw [hns]; rfl, (if_neg Bool.false_ne_true).trans hfold, ?_, hstop⟩
      intro p q hpq hq
      cases p with
      | nil => exact hs
      | cons m p =>
        obtain ⟨hm, hrest⟩ := List.cons.inj hpq
        rw [← hm]
        exact hgo p q hrest hq

section
variable {links : σ → Links ν} {head x : ν} {body : σ → ν → Option σ} {stop : σ → Bool}

theorem forEach_end (k : ℕ) (s : σ) :
    forEach links head body (k + 1) (some head) s = some ([], s) := if_pos rfl

theorem forEach_step (hx : x ≠ head) (k : ℕ) (s : σ) :
    forEach links head body (k + 1) (some x) s = (body s x).bind fun s' =>
      (forEach links head body k ((links s').next x) s').map fun r => (x :: r.1, r.2) := if_neg hx

/-- A loop that has come to its end comes to the same end when it is given more rounds. -/
theorem forEach_mono {k : ℕ} {o : Option ν} {s : σ} {r : List ν × σ}
    (h : forEach links head body k o s = some r) (j : ℕ) :
    forEach links head body (k + j) o s = some r := by
  induction k generalizing o s r with
  | zero => exact absurd h (by simp [forEach])
  | succ k ih =>
    rw [Nat.succ_add]
    cases o with
    | none => exact absurd h (by simp [forEach])
    | some pos =>
      unfold forEach at h ⊢
      split_ifs at h ⊢ with hpos
      · exact h
      · obtain ⟨s', hs', h⟩ := Option.bind_eq_some_iff.mp h
        obtain ⟨r', hr', hr⟩ := Option.map_eq_some_iff.mp h
        rw [hs', Option.bind_some, ih hr', Option.map_some, hr]

/-- What the body keeps, a loop that comes to its end keeps. -/
theorem forEach_keeps {P : σ → Prop} (hbody : ∀ s n s', P s → body s n = some s' → P s') {k : ℕ}
    {o : Option ν} {s : σ} {r : List ν × σ} (hs : P s)
    (h : forEach links head body k o s = some r) : P r.2 := by
  induction k generalizing o s r with
  | zero => exact absurd h (by simp [forEach])
  | succ k ih =>
    cases o with
    | none => exact absurd h (by simp [forEach])
    | some pos =>
      unfold forEach at h
      split_ifs at h with hpos
      · rw [← Option.some.inj h]
        exact hs
      · obtain ⟨s', hs', h⟩ := Option.bind_eq_some_iff.mp h
        obtain ⟨r', hr', rfl⟩ := Option.map_eq_some_iff.mp h
        have hend : P r'.2 := ih (hbody s pos s' hs hs') hr'
        exact hend

/-- **Prefix rule.**  While the nodes up to `x` are visited the body changes no `next` pointer: the
loop folds over them and is at `x`. -/
theorem forEach_upTo (links : σ → Links ν) (body : σ → ν → Option σ)
    (g : σ → ν → σ) (Inv : List ν → σ → Prop)
    (hstep : ∀ n ns s, Inv (n :: ns) s →
      body s n = some (g s n) ∧ (links (g s n)).next = (links s).next ∧ Inv ns (g s n))
    {as : List ν} {o : Option ν} {s : σ} (hp : LinkPath (links s).next o as x) (hh : head ∉ as)
    (hinv : Inv as s) :
    Inv [] (as.foldl g s) ∧ (links (as.foldl g s)).next = (links s).next ∧
      ∀ k, forEach links head body (as.length + k) o s =
        (forEach links head body k (some x) (as.foldl g s)).map fun r => (as ++ r.1, r.2) := by
  induction as generalizing o s with
  | nil =>
    refine ⟨hinv, rfl, fun k => ?_⟩
    rw [show o = some x from hp, List.length_nil, Nat.zero_add]
    exact Option.map_id'.symm
  | cons n as ih =>
    obtain ⟨hn, hp⟩ := hp
    obtain ⟨hbody, hnext, hinv'⟩ := hstep n as s hinv
    have hne : n ≠ head := fun he => hh (he ▸ List.mem_cons_self)
    rw [← hnext] at hp
    obtain ⟨h1, h2, h3⟩ := ih hp (fun hin => hh (List.mem_cons_of_mem _ hin)) hinv'
    refine ⟨h1, h2.trans hnext, fun k => ?_⟩
    rw [hn, List.length_cons, Nat.succ_add, List.foldl_cons, forEach_step hne, hbody,
      Option.bind_some, h3 k, Option.map_map]
    rfl

/-- The loop visits the nodes of the list, when the body changes no `next` pointer. -/
theorem forEach_path (links : σ → Links ν) (body : σ → ν → Option σ)
    (g : σ → ν → σ) (Inv : List ν → σ → Prop)
    (hstep : ∀ n ns s, Inv (n :: ns) s →
      body s n = some (g s n) ∧ (links (g s n)).next = (links s).next ∧ Inv ns (g s n))
    {ns : List ν} {o : Option ν} {s : σ} (hp : LinkPath (links s).next o ns head)
    (hh : head ∉ ns) (hinv : Inv ns s) (j : ℕ) :
    forEach links head body (ns.length + 1 + j) o s = some (ns, ns.foldl g s) ∧
      Inv [] (ns.foldl g s) ∧ (links (ns.foldl g s)).next = (links s).next := by
  obtain ⟨h1, h2, h3⟩ := forEach_upTo links body g Inv hstep hp hh hinv
  refine ⟨forEach_mono ?_ j, h1, h2⟩
  rw [h3 1, forEach_end, Option.map_some, List.append_nil]

/-- The body at `x` sends the loop to a node where it fails: the loop never comes to its end. -/
theorem forEach_lost (links : σ → Links ν) (body : σ → ν → Option σ)
    (g : σ → ν → σ) (Inv : List ν → σ → Prop)
    (hstep : ∀ n ns s, Inv (n :: ns) s →
      body s n = some (g s n) ∧ (links (g s n)).next = (links s).next ∧ Inv ns (g s n))
    {as : List ν} {o : Option ν} {s : σ} (hp : LinkPath (links s).next o as x) (hh : head ∉ as)
    (hinv : Inv as s) (hx : x ≠ head)
    (hlost : ∀ s', body (as.foldl g s) x = some s' →
      ∃ y, (links s').next x = some y ∧ y ≠ head ∧ body s' y = none) (k : ℕ) :
    forEach links head body k o s = none := by
  cases h : forEach links head body k o s with
  | none => rfl
  | some r =>
    have hmore := forEach_mono h (as.length + 2)
    have hnone : forEach links head body (k + 2) (some x) (as.foldl g s) = none := by
      rw [forEach_step hx]
      cases hb : body (as.foldl g s) x with
      | none => rfl
      | some s' =>
        obtain ⟨y, hy, hyh, hfail⟩ := hlost s' hb
        rw [Option.bind_some, hy, forEach_step hyh, hfail]
        rfl
    rw [show k + (as.length + 2) = as.length + (k + 2) by omega,
      (forEach_upTo links body g Inv hstep hp hh hinv).2.2, hnone] at hmore
    exact absurd hmore (by simp)

/-- **The safe loop** folds over the nodes until it stops, when the body leaves the `next` pointers of
the nodes ahead alone; the node it is at may go. -/
theorem forEachSafe_path (links : σ → Links ν) (stop : σ → Bool) (body : σ → ν → Option σ)
    (g : σ → ν → σ) (Inv : List ν → σ → Prop)
    (hstep : ∀ n ns s, Inv (n :: ns) s → stop s = false →
      body s n = some (g s n) ∧ Inv ns (g s n) ∧
        ∀ m ∈ ns, (links (g s n)).next m = (links s).next m)
    {ns : List ν} {o n : Option ν} {s : σ} (hp : LinkPath (links s).next o ns head)
    (hn : ∀ m ms, ns = m :: ms → n = (links s).next m) (hh : head ∉ ns) (hinv : Inv ns s) (j : ℕ) :
    forEachSafe links head stop body (ns.length + 1 + j) o n s = some (foldUntil stop g s ns) := by
  induction ns generalizing o n s with
  | nil =>
    rw [show o = some head from hp, List.length_nil, Nat.zero_add, Nat.add_comm]
    unfold forEachSafe
    rw [if_pos rfl]
    rfl
  | cons m ms ih =>
    obtain ⟨ho, hp⟩ := hp
    have hne : m ≠ head := fun he => hh (he ▸ List.mem_cons_self)
    rw [ho, List.length_cons, show ms.length + 1 + 1 + j = ms.length + 1 + j + 1 by omega]
    unfold forEachSafe foldUntil
    rw [if_neg hne]
    cases hs : stop s with
    | true => rw [if_pos rfl, if_pos rfl]
    | false =>
      obtain ⟨hbody, hinv', hnext⟩ := hstep m ms s hinv hs
      have hp' : LinkPath (links (g s m)).next ((links s).next m) ms head := hp.congr hnext
      obtain ⟨y, hy⟩ : ∃ y, (links s).next m = some y := by
        cases ms with
        | nil => exact ⟨_, hp⟩
        | cons y ms => exact ⟨_, hp.1⟩
      rw [if_neg Bool.false_ne_true, if_neg Bool.false_ne_true, hbody, Option.bind_some,
        hn m ms rfl, hy, Option.bind_some]
      rw [hy] at hp'
      refine ih hp' (fun z zs hz => ?_) (fun hin => hh (List.mem_cons_of_mem _ hin)) hinv'
      rw [hz] at hp'
      rw [Option.some.inj hp'.1]

end
