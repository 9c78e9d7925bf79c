import WhisprMedia.Pagination
import WhisprMedia.SerialService

/-! The pages of `my-media`: every page is a query of its own, and the queries order rows that
were created at the same time as they like. -/
namespace WhisprMedia
open Awaiting MediaService Paging

/-- The same deployment over a database that orders tied rows in its own way. -/
def Env.withRowOrder (env : Env) (order : ℕ → List Media → List Media)
    (horder : ∀ n rows, (order n rows).Perm rows) : Env :=
  { env with rowOrder := order, rowOrder_perm := horder }

/-- The rows that `my-media` is about. -/
def activeMedia (w : World) (u : String) : List Media :=
  w.media.rows.filter fun m => m.ownerId = u && m.isActive

def myMediaPage (env : Env) (w : World) (userId : String) (page limit : ℕ) :
    Except Err PaginatedMediaResponseDto :=
  (Prog.run env.exec (getUserMedia userId page limit).run w).result

/-- The items of the pages 1 to `totalPages`, which the first page tells; page `i+1` is asked for
when the stores are `worlds i`. -/
def fetchedItems (env : Env) (userId : String) (limit : ℕ) (worlds : ℕ → World) :
    Except Err (List MediaItemDto) := do
  let first ← myMediaPage env (worlds 0) userId 1 limit
  let pages ← (List.range first.totalPages).mapM fun i =>
    myMediaPage env (worlds i) userId (i+1) limit
  pure (pages.flatMap (·.items))

/-- Each active media once, the newest first. -/
structure ListsAll (w : World) (u : String) (items : List MediaItemDto) : Prop where
  once : items.Perm ((activeMedia w u).map toMediaItem)
  newestFirst : items.Pairwise fun a b => b.createdAt ≤ a.createdAt

section Pages
variable {env : Env} {w : World} {userId u : String} {limit page : ℕ}

/-- What the database answers before the page is cut out. -/
def orderedMedia (env : Env) (w : World) (u : String) : List Media :=
  (env.rowOrder w.nonce (activeMedia w u)).mergeSort fun m m' => m'.createdAt ≤ m.createdAt

theorem orderedMedia_answer (env : Env) (w : World) (u : String) :
    Answer (·.createdAt) (activeMedia w u) (orderedMedia env w u) := by
  refine ⟨(List.mergeSort_perm _ _).trans (env.rowOrder_perm _ _), ?_⟩
  have hsorted : (orderedMedia env w u).Pairwise fun m m' => decide (m'.createdAt ≤ m.createdAt) := by
    apply List.pairwise_mergeSort
    · intro a b c hab hbc
      simp only [decide_eq_true_eq] at *
      omega
    · intro a b
      simp only [Bool.or_eq_true, decide_eq_true_eq]
      omega
  simp only [decide_eq_true_eq] at hsorted
  exact hsorted

/-- The policies let an owner see all rows of theirs. -/
theorem activeMedia_eq (w : World) (u : String) : activeMedia w u =
    w.media.rows.filter fun m => m.ownerId = u && m.isActive && rlsSelect u m := by
  apply List.filter_congr
  intro m _
  by_cases hm : m.ownerId = u
  · simp [rlsSelect, hm]
  · simp [hm]

theorem myMediaPage_eq (hu : env.uuidIn userId = some u) :
    myMediaPage env w userId page limit = .ok
      ⟨(((orderedMedia env w u).drop ((page-1) * limit)).take limit).map toMediaItem,
        (activeMedia w u).length, page, limit, totalPages (activeMedia w u).length limit⟩ := by
  have hlist : env.exec (.listMedia userId ((page-1) * limit) limit) w =
      (.ok (((orderedMedia env w u).drop ((page-1) * limit)).take limit, (activeMedia w u).length),
        { w with nonce := w.nonce + 1 }) := by
    simp only [Env.exec, hu, orderedMedia, activeMedia_eq]
  have hends : ProgE.Ends env.exec (getUserMedia userId page limit) w
      (fun dto _ => dto = ⟨(((orderedMedia env w u).drop ((page-1) * limit)).take limit).map
        toMediaItem, (activeMedia w u).length, page, limit,
        totalPages (activeMedia w u).length limit⟩) fun _ _ => False :=
    ends_await_bind hlist (ProgE.ends_pure rfl)
  have hrun := hends.ends
  unfold myMediaPage
  split at hrun
  · next dto hr => rw [hr, hrun]
  · exact hrun.elim

theorem mapM_ok {α β ε : Type} {f : α → Except ε β} {g : α → β} {l : List α}
    (h : ∀ a ∈ l, f a = .ok (g a)) : l.mapM f = .ok (l.map g) := by
  induction l with
  | nil => rfl
  | cons a l ih =>
    rw [List.mapM_cons, h a List.mem_cons_self, ih fun a ha => h a (List.mem_cons_of_mem _ ha)]
    rfl

/-- The fetched items are the pages of the answers. -/
theorem fetchedItems_eq {worlds : ℕ → World} (hu : env.uuidIn userId = some u)
    (hsame : ∀ i, (worlds i).media = w.media) : fetchedItems env userId limit worlds =
      .ok ((pages (fun i => orderedMedia env (worlds i) u) limit
        (totalPages (activeMedia w u).length limit)).map toMediaItem) := by
  have hactive (i : ℕ) : activeMedia (worlds i) u = activeMedia w u := by
    rw [activeMedia, hsame]
    rfl
  have hpages := @mapM_ok _ _ _ (fun i => myMediaPage env (worlds i) userId (i+1) limit) _
    (List.range (totalPages (activeMedia w u).length limit)) fun i _ => myMediaPage_eq hu
  unfold fetchedItems
  rw [myMediaPage_eq hu, hactive]
  show (List.mapM (fun i => myMediaPage env (worlds i) userId (i+1) limit)
    (List.range (totalPages (activeMedia w u).length limit)) >>= _) = _
  rw [hpages]
  show Except.ok _ = Except.ok _
  rw [List.flatMap_map, pages, List.map_flatMap]
  rfl

theorem length_le_totalPages (n : ℕ) (hlimit : 0 < limit) : n ≤ totalPages n limit * limit := by
  unfold totalPages
  have hdiv := Nat.div_add_mod (n + limit - 1) limit
  have hmod := Nat.mod_lt (n + limit - 1) hlimit
  rw [Nat.mul_comm] at hdiv
  omega

/-- Two rows of one list of pages carry different ids. -/
theorem nodup_of_listsAll {ms : List Media} (h : (ms.map toMediaItem).Perm
    ((activeMedia w u).map toMediaItem)) : ms.Nodup := by
  have hids : (ms.map Media.id).Perm ((activeMedia w u).map Media.id) := by
    have hmap := h.map MediaItemDto.id
    rw [List.map_map, List.map_map] at hmap
    exact hmap
  have hnodup : ((activeMedia w u).map Media.id).Nodup :=
    w.media.nodup.sublist (List.filter_sublist.map _)
  exact (hids.nodup_iff.mpr hnodup).of_map

end Pages

/-- The pages list every active media exactly once, newest first, whatever the queries make of
ties, exactly where no two media of one time lie on different sides of a page boundary. -/
theorem my_media_listed_iff (env : Env) (w : World) (userId u : String) (limit : ℕ)
    (hu : env.uuidIn userId = some u) (hlimit : 1 ≤ limit) :
    (∀ (order : ℕ → List Media → List Media) (horder : ∀ n rows, (order n rows).Perm rows)
        (worlds : ℕ → World), (∀ i, (worlds i).media = w.media) →
        ∃ items, fetchedItems (env.withRowOrder order horder) userId limit worlds = .ok items ∧
          ListsAll w u items) ↔
      NoTieAcross (·.createdAt) (activeMedia w u) limit := by
  have hactive {w' : World} (h : w'.media = w.media) : activeMedia w' u = activeMedia w u := by
    rw [activeMedia, h]
    rfl
  constructor
  · intro h
    by_contra hties
    -- the rows in some order, and what a tie across a boundary allows beside it
    have hanswer := orderedMedia_answer env w u
    obtain ⟨k, l', hl', hrepeat⟩ := exists_repeated hanswer hlimit hties
      (length_le_totalPages (activeMedia w u).length hlimit)
    let le : Media → Media → Bool := fun m m' => decide (m'.createdAt ≤ m.createdAt)
    have hsame {l : List Media} (hl : Answer (·.createdAt) (activeMedia w u) l) :
        l.mergeSort le = l :=
      List.mergeSort_of_pairwise (hl.sorted.imp fun h => decide_eq_true h)
    let order : ℕ → List Media → List Media := fun n rows =>
      if rows = activeMedia w u then (if n < k then orderedMedia env w u else l') else rows
    have horder : ∀ n rows, (order n rows).Perm rows := by
      intro n rows
      by_cases hrows : rows = activeMedia w u
      · subst hrows
        by_cases hn : n < k
        · simpa only [order, if_pos hn, if_true] using hanswer.perm
        · simpa only [order, if_neg hn, if_true] using hl'.perm
      · simp only [order, if_neg hrows]
        exact List.Perm.refl rows
    obtain ⟨items, hitems, hlists⟩ := h order horder (fun i => { w with nonce := i }) fun _ => rfl
    obtain rfl := Except.ok.inj (hitems.symm.trans (fetchedItems_eq (w := w) hu fun _ => rfl))
    have hanswers : (fun i => orderedMedia (env.withRowOrder order horder) { w with nonce := i } u) =
        fun i => if i < k then orderedMedia env w u else l' := by
      funext i
      have hrows : orderedMedia (env.withRowOrder order horder) { w with nonce := i } u =
          (order i (activeMedia w u)).mergeSort le := rfl
      by_cases hi : i < k
      · simp only [hrows, order, if_true, if_pos hi]
        exact hsame hanswer
      · simp only [hrows, order, if_true, if_neg hi]
        exact hsame hl'
    rw [hanswers] at hlists
    exact hrepeat (nodup_of_listsAll hlists.once)
  · intro hties order horder worlds hsame
    have hanswers (i : ℕ) : Answer (·.createdAt) (activeMedia w u)
        (orderedMedia (env.withRowOrder order horder) (worlds i) u) := by
      rw [← hactive (hsame i)]
      exact orderedMedia_answer _ _ _
    refine ⟨_, fetchedItems_eq hu hsame, ?_, ?_⟩
    · exact (pages_perm hanswers hties (length_le_totalPages _ hlimit)).map toMediaItem
    · rw [List.pairwise_map]
      exact pages_sorted hanswers _

/-- A message of the first user. -/
def pagedMedia (i : Fin 10) (createdAt : Int) : Media where
  id := exampleId i
  ownerId := exampleId 0
  context := "message"
  storagePath := s!"messages/{exampleId 0}/{exampleId i}.bin"
  thumbnailPath := none
  contentType := "application/octet-stream"
  blobSize := 3
  expiresAt := none
  signedUrlExpiresAt := none
  isActive := true
  sharedWith := none
  createdAt := createdAt

/-- Two messages, created at these times. -/
def twoMedia (t t' : Int) : World :=
  { World.empty with
    media := (Keyed.Table.empty.insert (pagedMedia 1 t)).insert (pagedMedia 2 t') }

theorem activeMedia_twoMedia : ∀ t t', activeMedia (twoMedia t t') (exampleId 0) =
    [pagedMedia 1 t, pagedMedia 2 t'] := by
  intro t t'
  have hids : exampleId 1 ≠ exampleId 2 := fun h => absurd (exampleId_injective _ _ h) (by decide)
  simp [activeMedia, twoMedia, Keyed.Table.insert, Keyed.Table.empty, pagedMedia, hids.symm]

/-- The second query answers the other way round. -/
def turned (n : ℕ) (rows : List Media) : List Media := if n = 0 then rows else rows.reverse

theorem turned_perm (n : ℕ) (rows : List Media) : (turned n rows).Perm rows := by
  unfold turned
  split
  · exact List.Perm.refl rows
  · exact rows.reverse_perm

/-- Messages of different times, one on each page, however the queries order tied rows. -/
theorem my_media_listed_of_two : ∃ items,
    fetchedItems (exampleEnv.withRowOrder turned turned_perm) (exampleId 0) 1
      (fun i => { twoMedia 3 5 with nonce := i }) = .ok items ∧
    ListsAll (twoMedia 3 5) (exampleId 0) items := by
  refine (my_media_listed_iff exampleEnv (twoMedia 3 5) (exampleId 0) (exampleId 0) 1
    (exampleId_canonical 0) (Nat.le_refl 1)).mpr ?_ turned turned_perm _ fun _ => rfl
  have hanswer : Answer (·.createdAt) [pagedMedia 1 3, pagedMedia 2 5]
      [pagedMedia 2 5, pagedMedia 1 3] :=
    ⟨List.Perm.swap _ _ _, by simp [pagedMedia]⟩
  have hkeys : keys (·.createdAt) [pagedMedia 1 3, pagedMedia 2 5] = [5, 3] :=
    hanswer.keys_eq.symm
  rw [activeMedia_twoMedia]
  intro i hi hlt
  obtain rfl : i = 1 := by simp at hlt; omega
  rw [hkeys]
  decide

/-- Two messages of one time: the first is on both pages, the second on none. -/
theorem tied_media_repeated : fetchedItems (exampleEnv.withRowOrder turned turned_perm)
    (exampleId 0) 1 (fun i => { twoMedia 3 3 with nonce := i }) =
      .ok [toMediaItem (pagedMedia 1 3), toMediaItem (pagedMedia 1 3)] := by
  have hordered (i : ℕ) : orderedMedia (exampleEnv.withRowOrder turned turned_perm)
      { twoMedia 3 3 with nonce := i } (exampleId 0) =
        turned i [pagedMedia 1 3, pagedMedia 2 3] := by
    show (turned i (activeMedia (twoMedia 3 3) (exampleId 0))).mergeSort _ = _
    rw [activeMedia_twoMedia]
    apply List.mergeSort_of_pairwise
    unfold turned
    split
    · simp [pagedMedia]
    · simp [pagedMedia]
  have hu : (exampleEnv.withRowOrder turned turned_perm).uuidIn (exampleId 0) = some (exampleId 0) :=
    exampleId_canonical 0
  refine (fetchedItems_eq (w := twoMedia 3 3) hu ?_).trans ?_
  · intro i
    rfl
  · rw [activeMedia_twoMedia]
    simp only [hordered]
    rfl

end WhisprMedia
