import Nomalloc.Lib.Bytes

/-!
# What the client of an allocator sees

The client holds objects: at some addresses there are bytes that are its own.

* `Objects.Call`        it asks for an object, for another size, gives one back, or writes;
* `Objects.Step`        what a call may do to the objects.  An allocator is free in where it puts an
                        object, in what an object holds at first, and in whether it serves at all;
* `Objects.Run.kept`    an object that no call names keeps its bytes through a run;
* `Objects.Disjoint`    no byte belongs to two objects.
-/

/-- The bytes at the addresses that the client holds. -/
abbrev Objects (β : Type*) := ℕ → Option (List β)

namespace Objects
variable {β : Type*}

def put (h : Objects β) (p : ℕ) (bs : List β) : Objects β := Function.update h p (some bs)

def drop (h : Objects β) (p : ℕ) : Objects β := Function.update h p none

inductive Call (β : Type*) where
  | grant (ok : ℕ → List β → Prop)
  | resize (p n : ℕ)
  | drop (p : ℕ)
  | write (f : ℕ → List β → List β)

/-- A call that returns `q` takes the objects `h` to the ones on the right. -/
inductive Step (h : Objects β) : Call β → ℕ → Objects β → Prop
  | refused {ok : ℕ → List β → Prop} : Step h (.grant ok) 0 h
  | granted {ok : ℕ → List β → Prop} {p : ℕ} {bs : List β} (hp : p ≠ 0) (hfree : h p = none)
      (hok : ok p bs) : Step h (.grant ok) p (h.put p bs)
  | stays {p n : ℕ} : Step h (.resize p n) 0 h
  | resized {p n q : ℕ} {old bs : List β} (hq : q ≠ 0) (hold : h p = some old)
      (hfree : q = p ∨ h q = none) (hlen : bs.length = n) (hbytes : bs.take old.length = old.take n) :
      Step h (.resize p n) q ((h.drop p).put q bs)
  | dropped {p : ℕ} : Step h (.drop p) 0 (h.drop p)
  | written {f : ℕ → List β → List β} : Step h (.write f) 0 fun p => (h p).map (f p)

/-- Calls with what they returned. -/
inductive Run : Objects β → List (Call β × ℕ) → Objects β → Prop
  | nil {h : Objects β} : Run h [] h
  | cons {h h' h'' : Objects β} {c : Call β} {q : ℕ} {cs : List (Call β × ℕ)} (hstep : Step h c q h')
      (hrun : Run h' cs h'') : Run h ((c, q) :: cs) h''

/-- The objects share no byte. -/
def Disjoint (h : Objects β) : Prop :=
  ∀ p q bs cs, h p = some bs → h q = some cs → p ≠ q → p + bs.length ≤ q ∨ q + cs.length ≤ p

section
variable {h h' : Objects β} {p q : ℕ} {bs : List β} {c : Call β} {cs : List (Call β × ℕ)}

@[simp] theorem put_self : h.put p bs p = some bs := Function.update_self ..

theorem put_of_ne (hq : q ≠ p) : h.put p bs q = h q := Function.update_of_ne hq ..

@[simp] theorem drop_self : h.drop p p = none := Function.update_self ..

theorem drop_of_ne (hq : q ≠ p) : h.drop p q = h q := Function.update_of_ne hq ..

theorem drop_of_none (hp : h p = none) : h.drop p = h := by
  unfold drop
  rw [← hp, Function.update_eq_self]

/-- The call neither gives the object at `p` back nor changes its bytes `bs`. -/
def Call.Spares (p : ℕ) (bs : List β) : Call β → Prop
  | .grant _ => True
  | .resize q _ => q ≠ p
  | .drop q => q ≠ p
  | .write f => f p bs = bs

theorem Step.kept (hs : Step h c q h') (hp : h p = some bs) (hc : c.Spares p bs) :
    h' p = some bs := by
  have hne : ∀ {r}, h r = none → p ≠ r := by
    rintro r hr rfl
    rw [hp] at hr
    cases hr
  cases hs with
  | refused => exact hp
  | granted _ hfree _ =>
    rw [put_of_ne (hne hfree)]
    exact hp
  | stays => exact hp
  | resized _ _ hfree _ _ =>
    have hc' : p ≠ _ := Ne.symm hc
    rcases hfree with rfl | hfree
    · rw [put_of_ne hc', drop_of_ne hc']
      exact hp
    · rw [put_of_ne (hne hfree), drop_of_ne hc']
      exact hp
  | dropped =>
    rw [drop_of_ne (Ne.symm hc)]
    exact hp
  | written =>
    dsimp only
    rw [hp, Option.map_some]
    exact congrArg some hc

theorem Step.grant_cases {ok : ℕ → List β → Prop} (hs : Step h (.grant ok) q h') :
    (q = 0 ∧ h' = h) ∨ (q ≠ 0 ∧ h q = none ∧ ∃ bs, ok q bs ∧ h' = h.put q bs) := by
  cases hs with
  | refused => exact Or.inl ⟨rfl, rfl⟩
  | granted hp hfree hok => exact Or.inr ⟨hp, hfree, _, hok, rfl⟩

theorem Step.grant_mono {ok ok' : ℕ → List β → Prop} (hs : Step h (.grant ok) q h')
    (hok : ∀ p bs, ok p bs → ok' p bs) : Step h (.grant ok') q h' := by
  cases hs with
  | refused => exact .refused
  | granted hp hfree hbs => exact .granted hp hfree (hok _ _ hbs)

theorem Step.write_eq {f : ℕ → List β → List β} (hs : Step h (.write f) q h') :
    h' = fun p => (h p).map (f p) := by
  cases hs with
  | written => rfl

/-- **What a run leaves alone.** -/
theorem Run.kept (hr : Run h cs h') (hp : h p = some bs) (hc : ∀ c ∈ cs, c.1.Spares p bs) :
    h' p = some bs := by
  induction hr with
  | nil => exact hp
  | cons hstep _ ih =>
    refine ih (hstep.kept hp (hc _ List.mem_cons_self)) fun c hin => ?_
    exact hc c (List.mem_cons_of_mem _ hin)

end

end Objects

namespace Bytes
variable {m m' : Mem} {p n : ℕ}

/-- The `n` bytes from `p`. -/
def bytesAt (m : Mem) (p n : ℕ) : List UInt8 := (List.range n).map fun i => m (p + i)

@[simp] theorem length_bytesAt : (bytesAt m p n).length = n := by
  unfold bytesAt
  rw [List.length_map, List.length_range]

theorem bytesAt_congr (h : SameOn m m' p n) : bytesAt m' p n = bytesAt m p n := by
  refine List.map_congr_left fun i hi => ?_
  have hi' := List.mem_range.mp hi
  exact h (p + i) (by omega) (by omega)

theorem bytesAt_add (k l : ℕ) : bytesAt m p (k + l) = bytesAt m p k ++ bytesAt m (p + k) l := by
  unfold bytesAt
  rw [List.range_add, List.map_append, List.map_map]
  refine congrArg _ (List.map_congr_left fun i _ => ?_)
  show m (p + (k + i)) = m (p + k + i)
  rw [Nat.add_assoc]

/-- `memcpy` as lists see it. -/
theorem bytesAt_prefix {q k l : ℕ} (h : ∀ i, i < k → i < l → m' (q + i) = m (p + i)) :
    (bytesAt m' q l).take k = (bytesAt m p k).take l := by
  unfold bytesAt
  rw [← List.map_take, ← List.map_take, List.take_range, List.take_range, Nat.min_comm l k]
  refine List.map_congr_left fun i hi => ?_
  have hi' := List.mem_range.mp hi
  exact h i (by omega) (by omega)

theorem byte_of_bytesAt (h : bytesAt m' p n = bytesAt m p n) {i : ℕ} (hi : i < n) :
    m' (p + i) = m (p + i) := List.map_inj_left.mp h i (List.mem_range.mpr hi)

theorem bytesAt_fill {b : UInt8} : bytesAt (fill m p n b) p n = List.replicate n b := by
  refine List.eq_replicate_iff.mpr ⟨length_bytesAt, fun x hx => ?_⟩
  obtain ⟨i, hi, rfl⟩ := List.mem_map.mp hx
  have hi' := List.mem_range.mp hi
  exact if_pos ⟨by omega, by omega⟩

/-- `memset` of the first bytes. -/
theorem bytesAt_fill_first {b : UInt8} {k : ℕ} (hk : k ≤ n) :
    bytesAt (fill m p k b) p n = List.replicate k b ++ (bytesAt m p n).drop k := by
  obtain ⟨l, rfl⟩ := Nat.exists_eq_add_of_le hk
  have hrest : bytesAt (fill m p k b) (p + k) l = bytesAt m (p + k) l :=
    bytesAt_congr fun x hx _ => fill_outside (Or.inr hx)
  rw [bytesAt_add, bytesAt_add, bytesAt_fill, hrest, List.drop_left' length_bytesAt]

end Bytes
