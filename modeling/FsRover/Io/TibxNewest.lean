import FsRover.Io.Tibx

/-!
# Which slice of an archive wins

Every slice written into an archive states its ranges again. Sorting and flattening the records
leaves a disjoint table that covers what the records cover. A byte goes to the record that starts
first over it, and among those that start together to the newest one; it goes to the newest record
of all exactly where the record that starts first is not older than another one.

## Main definitions

* `FsRover.TibxExtent.Collected` : what `tibx_add_extent` makes of a record.
* `FsRover.TibxFirst`, `FsRover.TibxNewest` : the record that starts first over a byte, and a
  newest record over it.
* `FsRover.TibxFlat`, `FsRover.TibxNewestWins` : the table is disjoint and covers the records, and
  gives every byte to a newest record.
* `FsRover.TibxCoversNewer` : no record shadows a newer one.

## Main results

* `FsRover.tibxFlatten_first` : the table gives every byte to the record that starts first.
* `FsRover.tibxTable_newest_iff` : when the newest record wins.
-/

namespace FsRover

namespace TibxExtent

/-- What `tibx_add_extent` makes of a record whose range ends in 64 bits. -/
structure Collected (e : TibxExtent) : Prop where
  len_lt : e.len < 2 ^ 24
  pos_le : e.pos ≤ TIBX_EXTENT_WHOLE * TIBX_EXTENT_GRAIN
  end_lt : e.off + e.len < 2 ^ 64

instance (e : TibxExtent) : Decidable e.Collected :=
  decidable_of_iff (e.len < 2 ^ 24 ∧ e.pos ≤ TIBX_EXTENT_WHOLE * TIBX_EXTENT_GRAIN
    ∧ e.off + e.len < 2 ^ 64) ⟨fun h => ⟨h.1, h.2.1, h.2.2⟩, fun h => ⟨h.1, h.2, h.3⟩⟩

theorem Collected.endAt {e : TibxExtent} (h : e.Collected) : e.endAt = e.off + e.len :=
  u64_of_lt h.end_lt

/-- `t` is what is left of `e` from `t.off` on. -/
structure Piece (t e : TibxExtent) : Prop where
  seg : t.seg = e.seg
  id : t.id = e.id
  off_le : e.off ≤ t.off
  end_eq : t.off + t.len = e.off + e.len
  pos : t.pos = e.pos + (t.off - e.off)

theorem Piece.has {t e : TibxExtent} (h : t.Piece e) {x : ℕ} (hx : t.Has x) : e.Has x := by
  have hoff := h.off_le
  have hend := h.end_eq
  unfold Has at *
  omega

/-- A piece places each of its bytes where the extent does. -/
theorem Piece.pos_at {t e : TibxExtent} (h : t.Piece e) {x : ℕ} (hx : t.Has x) :
    t.pos + (x - t.off) = e.pos + (x - e.off) := by
  have hoff := h.off_le
  have hpos := h.pos
  unfold Has at hx
  omega

end TibxExtent

/-! ### The record that starts first -/

/-- `e` is the first of the records `es` that holds the byte at `x`. -/
def TibxFirst (es : List TibxExtent) (x : ℕ) (e : TibxExtent) : Prop :=
  ∃ before after, es = before ++ e :: after ∧ e.Has x ∧ ∀ a ∈ before, ¬ a.Has x

/-- `e` is one of the records that hold the byte at `x`, and none of these is newer. -/
structure TibxNewest (es : List TibxExtent) (x : ℕ) (e : TibxExtent) : Prop where
  mem : e ∈ es
  has : e.Has x
  newest : ∀ a ∈ es, a.Has x → a.id ≤ e.id

theorem tibxLe_iff {a b : TibxExtent} :
    tibxLe a b = true ↔ a.off < b.off ∨ (a.off = b.off ∧ b.id ≤ a.id) := by
  simp only [tibxLe, Bool.not_eq_true', Bool.or_eq_false_iff, Bool.and_eq_false_iff,
    decide_eq_false_iff_not]
  omega

theorem tibxLe_trans (a b c : TibxExtent) (hab : tibxLe a b) (hbc : tibxLe b c) :
    tibxLe a c := by
  rw [tibxLe_iff] at *
  omega

theorem tibxLe_total (a b : TibxExtent) : tibxLe a b || tibxLe b a := by
  rw [Bool.or_eq_true, tibxLe_iff, tibxLe_iff]
  omega

theorem mem_tibxSortExtents {es : List TibxExtent} {e : TibxExtent} :
    e ∈ tibxSortExtents es ↔ e ∈ es := (MergeRuns.sort_perm es).mem_iff

theorem tibxSortExtents_sorted (es : List TibxExtent) :
    (tibxSortExtents es).Pairwise (fun a b => tibxLe a b) :=
  MergeRuns.pairwise_sort tibxLe_trans tibxLe_total es

theorem TibxFirst.mem {es : List TibxExtent} {x : ℕ} {e : TibxExtent} (h : TibxFirst es x e) :
    e ∈ es := by
  obtain ⟨before, after, rfl, -, -⟩ := h
  simp

theorem TibxFirst.has {es : List TibxExtent} {x : ℕ} {e : TibxExtent} (h : TibxFirst es x e) :
    e.Has x :=
  let ⟨_, _, _, hx, _⟩ := h
  hx

/-- In a sorted list the first record over a byte starts no later than the others over it, and is
no older than those that start with it. -/
theorem TibxFirst.le {es : List TibxExtent} (hes : es.Pairwise (fun a b => tibxLe a b)) {x : ℕ}
    {e a : TibxExtent} (h : TibxFirst es x e) (ha : a ∈ es) (hx : a.Has x) :
    e.off < a.off ∨ (e.off = a.off ∧ a.id ≤ e.id) := by
  obtain ⟨before, after, rfl, -, hbefore⟩ := h
  rcases List.mem_append.mp ha with ha | ha
  · exact absurd hx (hbefore a ha)
  · rcases List.mem_cons.mp ha with rfl | ha
    · exact Or.inr ⟨rfl, Nat.le_refl _⟩
    · have hcons := (List.pairwise_append.mp hes).2.1
      exact tibxLe_iff.mp ((List.pairwise_cons.mp hcons).1 a ha)

/-! ### The loop -/

/-- What `tibx_flatten_extents` leaves of the records `es` from `covered` on. -/
structure TibxFlattened (covered : ℕ) (es ts : List TibxExtent) : Prop where
  covered_le : ∀ t ∈ ts, covered ≤ t.off
  disjoint : ts.Pairwise fun a b => a.off + a.len ≤ b.off
  piece : ∀ t ∈ ts, ∃ e ∈ es, t.Piece e
  first : ∀ x e, covered ≤ x → TibxFirst es x e → ∃ t ∈ ts, t.Has x ∧ t.Piece e

/-- A record that ends before `covered` changes nothing. -/
theorem TibxFlattened.skip {covered : ℕ} {e : TibxExtent} {es ts : List TibxExtent}
    (h : TibxFlattened covered es ts) (he : e.off + e.len ≤ covered) :
    TibxFlattened covered (e :: es) ts := by
  refine ⟨h.covered_le, h.disjoint, fun t ht => ?_, ?_⟩
  · obtain ⟨a, ha, hpiece⟩ := h.piece t ht
    exact ⟨a, List.mem_cons_of_mem _ ha, hpiece⟩
  · rintro x a hx ⟨_ | ⟨b, before⟩, after, heq, hax, hbefore⟩
    · obtain ⟨rfl, rfl⟩ := List.cons.inj heq
      unfold TibxExtent.Has at hax
      omega
    · obtain ⟨rfl, rfl⟩ := List.cons.inj heq
      exact h.first x a hx ⟨before, after, rfl, hax, fun c hc =>
        hbefore c (List.mem_cons_of_mem _ hc)⟩

/-- A piece `t` of a record that reaches past `covered`, in front of what is left behind it. -/
theorem TibxFlattened.keep {covered : ℕ} {e t : TibxExtent} {es ts : List TibxExtent}
    (h : TibxFlattened (e.off + e.len) es ts) (hpiece : t.Piece e)
    (hoff : t.off = max e.off covered) (hend : covered < e.off + e.len)
    (hes : ∀ a ∈ es, e.off ≤ a.off) : TibxFlattened covered (e :: es) (t :: ts) := by
  have hte := hpiece.end_eq
  refine ⟨?_, ?_, ?_, ?_⟩
  · intro u hu
    rcases List.mem_cons.mp hu with rfl | hu
    · omega
    · have hle := h.covered_le u hu
      omega
  · refine List.pairwise_cons.mpr ⟨fun u hu => ?_, h.disjoint⟩
    have hle := h.covered_le u hu
    omega
  · intro u hu
    rcases List.mem_cons.mp hu with rfl | hu
    · exact ⟨e, List.mem_cons_self, hpiece⟩
    · obtain ⟨a, ha, hu⟩ := h.piece u hu
      exact ⟨a, List.mem_cons_of_mem _ ha, hu⟩
  · rintro x a hx ⟨_ | ⟨b, before⟩, after, heq, hax, hbefore⟩
    · obtain ⟨rfl, rfl⟩ := List.cons.inj heq
      refine ⟨t, List.mem_cons_self, ?_, hpiece⟩
      unfold TibxExtent.Has at hax ⊢
      omega
    · obtain ⟨rfl, rfl⟩ := List.cons.inj heq
      -- the first record starts at or before `a`, so `x` is behind it
      have hnot := hbefore e List.mem_cons_self
      have hle := hes a (by simp)
      have hxe : e.off + e.len ≤ x := by
        unfold TibxExtent.Has at hax hnot
        omega
      obtain ⟨u, hu, hux, hua⟩ := h.first x a hxe
        ⟨before, after, rfl, hax, fun c hc => hbefore c (List.mem_cons_of_mem _ hc)⟩
      exact ⟨u, List.mem_cons_of_mem _ hu, hux, hua⟩

theorem tibxFlattenFrom_spec : ∀ (es : List TibxExtent) (covered : ℕ),
    es.Pairwise (fun a b => tibxLe a b) → (∀ e ∈ es, e.Collected) →
      TibxFlattened covered es (tibxFlattenFrom covered es)
  | [], covered, _, _ => by
    refine ⟨fun t ht => ?_, List.Pairwise.nil, fun t ht => ?_, ?_⟩
    · cases ht
    · cases ht
    · rintro x e - ⟨before, after, heq, -⟩
      simp at heq
  | e :: es, covered, hsorted, hcol => by
    obtain ⟨hle, hsorted⟩ := List.pairwise_cons.mp hsorted
    have he := hcol e List.mem_cons_self
    have hes := fun a ha => hcol a (List.mem_cons_of_mem e ha)
    have hoff : ∀ a ∈ es, e.off ≤ a.off := fun a ha => by
      have h := tibxLe_iff.mp (hle a ha)
      omega
    simp only [tibxFlattenFrom]
    rw [he.endAt]
    split_ifs with hend hcov
    · exact (tibxFlattenFrom_spec es covered hsorted hes).skip hend
    · refine (tibxFlattenFrom_spec es _ hsorted hes).keep ⟨rfl, rfl, Nat.le_of_lt hcov, ?_, ?_⟩
        ?_ (by omega) hoff
      · simp only
        omega
      · have hpos := he.pos_le
        have hlen := he.len_lt
        simp only [TIBX_EXTENT_WHOLE, TIBX_EXTENT_GRAIN] at hpos ⊢
        omega
      · simp only
        omega
    · exact (tibxFlattenFrom_spec es _ hsorted hes).keep ⟨rfl, rfl, Nat.le_refl _, rfl, by omega⟩
        (by omega) (by omega) hoff

/-- The table the archive is read through. -/
def tibxTable (es : List TibxExtent) : List TibxExtent := tibxFlattenExtents (tibxSortExtents es)

theorem tibxTable_spec {es : List TibxExtent} (hcol : ∀ e ∈ es, e.Collected) :
    TibxFlattened 0 (tibxSortExtents es) (tibxTable es) :=
  tibxFlattenFrom_spec _ 0 (tibxSortExtents_sorted es) fun e he =>
    hcol e (mem_tibxSortExtents.mp he)

theorem exists_tibxFirst {es : List TibxExtent} {x : ℕ} (h : ∃ e ∈ es, e.Has x) :
    ∃ e, TibxFirst es x e := by
  induction es with
  | nil => simp at h
  | cons a es ih =>
    by_cases ha : a.Has x
    · exact ⟨a, [], es, rfl, ha, by simp⟩
    · obtain ⟨e, he, hex⟩ := h
      have hes : e ∈ es := (List.mem_cons.mp he).resolve_left fun heq => ha (heq ▸ hex)
      obtain ⟨f, before, after, rfl, hf, hbefore⟩ := ih ⟨e, hes, hex⟩
      refine ⟨f, a :: before, after, rfl, hf, ?_⟩
      intro c hc
      rcases List.mem_cons.mp hc with rfl | hc
      · exact ha
      · exact hbefore c hc

/-! ### The newest record -/

/-- The table is sorted and disjoint, and covers the records. -/
structure TibxFlat (es ts : List TibxExtent) : Prop where
  disjoint : ts.Pairwise fun a b => a.off + a.len ≤ b.off
  covers : ∀ x, (∃ t ∈ ts, t.Has x) ↔ ∃ e ∈ es, e.Has x

/-- The table gives every byte to a newest record over it. -/
def TibxNewestWins (es ts : List TibxExtent) : Prop :=
  ∀ x, ∀ t ∈ ts, t.Has x → ∃ e, TibxNewest es x e ∧ t.seg = e.seg ∧ t.id = e.id
    ∧ t.pos + (x - t.off) = e.pos + (x - e.off)

/-- Where a record starts inside an older one, a record that starts no later than the older and is
at least as new as the newer holds the byte too. -/
def TibxCoversNewer (es : List TibxExtent) : Prop :=
  ∀ a ∈ es, ∀ b ∈ es, ∀ x, a.Has x → b.Has x → a.off < b.off → a.id < b.id →
    ∃ c ∈ es, c.Has x ∧ c.off ≤ a.off ∧ b.id ≤ c.id

theorem tibxTable_flat {es : List TibxExtent} (hcol : ∀ e ∈ es, e.Collected) :
    TibxFlat es (tibxTable es) := by
  have hspec := tibxTable_spec hcol
  refine ⟨hspec.disjoint, fun x => ⟨?_, ?_⟩⟩
  · rintro ⟨t, ht, hx⟩
    obtain ⟨e, he, hpiece⟩ := hspec.piece t ht
    exact ⟨e, mem_tibxSortExtents.mp he, hpiece.has hx⟩
  · rintro ⟨e, he, hx⟩
    obtain ⟨a, ha⟩ := exists_tibxFirst ⟨e, mem_tibxSortExtents.mpr he, hx⟩
    obtain ⟨t, ht, hxt, -⟩ := hspec.first x a (Nat.zero_le x) ha
    exact ⟨t, ht, hxt⟩

theorem tibxTable_unique {ts : List TibxExtent}
    (h : ts.Pairwise fun a b => a.off + a.len ≤ b.off) {t u : TibxExtent} (ht : t ∈ ts)
    (hu : u ∈ ts) {x : ℕ} (htx : t.Has x) (hux : u.Has x) : t = u := by
  -- no two different entries hold the byte, in either order
  have hlt : ts.Pairwise fun a b => a.Has x → b.Has x → a = b := h.imp fun {a b} hab ha hb => by
    unfold TibxExtent.Has at ha hb
    omega
  have hgt : ts.Pairwise fun a b => b.Has x → a.Has x → b = a := h.imp fun {a b} hab hb ha => by
    unfold TibxExtent.Has at ha hb
    omega
  exact List.Pairwise.forall_of_forall_of_flip (fun _ _ _ _ => rfl) hlt hgt ht hu htx hux

/-- The table gives every byte to the record that starts first over it. -/
theorem tibxFlatten_first {es : List TibxExtent} (hcol : ∀ e ∈ es, e.Collected) {x : ℕ}
    {t : TibxExtent} (ht : t ∈ tibxTable es) (hx : t.Has x) :
    ∃ e, TibxFirst (tibxSortExtents es) x e ∧ t.Piece e := by
  have hspec := tibxTable_spec hcol
  obtain ⟨a, ha, hpiece⟩ := hspec.piece t ht
  obtain ⟨e, he⟩ := exists_tibxFirst ⟨a, ha, hpiece.has hx⟩
  obtain ⟨u, hu, hux, hue⟩ := hspec.first x e (Nat.zero_le x) he
  exact ⟨e, he, tibxTable_unique hspec.disjoint ht hu hx hux ▸ hue⟩

/-- The newest record wins exactly if no record shadows a newer one. -/
theorem tibxTable_newest_iff {es : List TibxExtent} (hcol : ∀ e ∈ es, e.Collected) :
    TibxNewestWins es (tibxTable es) ↔ TibxCoversNewer es := by
  have hspec := tibxTable_spec hcol
  have hsorted := tibxSortExtents_sorted es
  constructor
  · intro h a ha b hb x hax hbx hoff hid
    obtain ⟨c, hc⟩ := exists_tibxFirst ⟨a, mem_tibxSortExtents.mpr ha, hax⟩
    obtain ⟨t, ht, htx, hpiece⟩ := hspec.first x c (Nat.zero_le x) hc
    obtain ⟨e, he, -, hte, -⟩ := h x t ht htx
    have hle := hc.le hsorted (mem_tibxSortExtents.mpr ha) hax
    have hbe := he.newest b hb hbx
    have hce := hpiece.id
    exact ⟨c, mem_tibxSortExtents.mp hc.mem, hc.has, by omega, by omega⟩
  · intro h x t ht hx
    obtain ⟨e, he, hpiece⟩ := tibxFlatten_first hcol ht hx
    refine ⟨e, ⟨mem_tibxSortExtents.mp he.mem, he.has, fun b hb hbx => ?_⟩, hpiece.seg, hpiece.id,
      hpiece.pos_at hx⟩
    have hle := he.le hsorted (mem_tibxSortExtents.mpr hb) hbx
    by_contra hid
    -- an older record starts first: the one that covers for it would come before it
    obtain ⟨c, hc, hcx, hcoff, hcid⟩ := h e (mem_tibxSortExtents.mp he.mem) b hb x he.has hbx
      (by omega) (by omega)
    have hlec := he.le hsorted (mem_tibxSortExtents.mpr hc) hcx
    omega

end FsRover
