import WhisprMedia.Rows

/-! What the dedup cache knows about rows: an entry under a key of `dedupKey` points to a row of
the user that the key names. -/
namespace WhisprMedia
open Awaiting Keyed MediaService

/-! The owner can be read off a dedup key -/

/-- A text is cut at its last colon in one way. -/
theorem cut_at_last {xs ys xs' ys' : List Char} (h : xs ++ ':' :: ys = xs' ++ ':' :: ys')
    (hy : ':' ∉ ys) (hy' : ':' ∉ ys') : xs = xs' ∧ ys = ys' := by
  rcases List.append_eq_append_iff.mp h with ⟨zs, hx, hz⟩ | ⟨zs, hx, hz⟩
  · cases zs with
    | nil => exact ⟨by simpa using hx.symm, by simpa using hz⟩
    | cons z zs =>
      have hmem : ':' ∈ ys := by
        rw [(List.cons.inj hz).2]
        simp
      exact absurd hmem hy
  · cases zs with
    | nil => exact ⟨by simpa using hx, by simpa using hz.symm⟩
    | cons z zs =>
      have hmem : ':' ∈ ys' := by
        rw [(List.cons.inj hz).2]
        simp
      exact absurd hmem hy'

theorem colon_notMem_hex (digest : List (Fin 16)) : ':' ∉ (hex digest).toList := by
  have hdigit : ∀ d : Fin 16, Nat.digitChar d.val ≠ ':' := by decide
  rw [hex, String.toList_ofList, List.mem_map]
  rintro ⟨d, -, hd⟩
  exact hdigit d hd

theorem colon_notMem_context (context : MediaContext) : ':' ∉ context.value.toList := by
  cases context <;> decide

theorem dedupKey_toList (ownerId : String) (context : MediaContext) (digest : List (Fin 16)) :
    (dedupKey ownerId context digest).toList =
      ("dedup:blob:".toList ++ ownerId.toList ++ ':' :: context.value.toList) ++
        ':' :: (hex digest).toList := by
  have hcolon : (":" : String).toList = [':'] := rfl
  show ("dedup:blob:" ++ ownerId ++ ":" ++ context.value ++ ":" ++ hex digest).toList = _
  rw [String.toList_append, String.toList_append, String.toList_append, String.toList_append,
    String.toList_append, hcolon, List.append_assoc _ [':'], List.append_assoc _ [':'],
    List.singleton_append, List.singleton_append]

theorem dedupKey_ownerId {o o' : String} {c c' : MediaContext} {d d' : List (Fin 16)}
    (h : dedupKey o c d = dedupKey o' c' d') : o = o' := by
  have hl := congrArg String.toList h
  rw [dedupKey_toList, dedupKey_toList] at hl
  have h1 := (cut_at_last hl (colon_notMem_hex d) (colon_notMem_hex d')).1
  have h2 := (cut_at_last h1 (colon_notMem_context c) (colon_notMem_context c')).1
  exact String.toList_inj.mp (List.append_cancel_left h2)

theorem hex_injective {d d' : List (Fin 16)} (h : hex d = hex d') : d = d' := by
  have hdigit : ∀ a b : Fin 16, Nat.digitChar a.val = Nat.digitChar b.val → a = b := by decide
  exact List.map_injective_iff.mpr (fun a b => hdigit a b) (String.ofList_injective h)

/-- A dedup key names one owner, one context and one digest. -/
theorem dedupKey_injective {o o' : String} {c c' : MediaContext} {d d' : List (Fin 16)}
    (h : dedupKey o c d = dedupKey o' c' d') : o = o' ∧ c = c' ∧ d = d' := by
  have hl := congrArg String.toList h
  rw [dedupKey_toList, dedupKey_toList] at hl
  obtain ⟨h1, hd⟩ := cut_at_last hl (colon_notMem_hex d) (colon_notMem_hex d')
  have hc := (cut_at_last h1 (colon_notMem_context c) (colon_notMem_context c')).2
  refine ⟨dedupKey_ownerId h, ?_, hex_injective (String.toList_inj.mp hd)⟩
  have hv := String.toList_inj.mp hc
  cases c <;> cases c' <;> first | rfl | exact absurd hv (by decide)

/-! The invariant -/

/-- Rows keep to Postgres' spelling, and a dedup entry points to a row of its user. -/
structure MediaStores (env : Env) (w : World) : Prop where
  canonical : RowsCanonical env w
  dedup : ∀ ownerId context digest id,
    w.dedupCache (dedupKey ownerId context digest) = some id →
      ∃ m, w.media.get id = some m ∧ env.uuidIn ownerId = some m.ownerId

section
variable {env : Env} {w w' : World} {c : Cmd}

theorem mediaStores_empty (env : Env) : MediaStores env World.empty :=
  ⟨fun _ _ h => absurd h (by simp [World.empty]),
    fun _ _ _ _ h => absurd h (by simp [World.empty])⟩

/-- Entries point to rows, and rows stay. -/
theorem MediaStores.later (h : MediaStores env w) (hl : MediaLater w w')
    (hc : RowsCanonical env w')
    (hd : ∀ key id, w'.dedupCache key = some id → w.dedupCache key = some id) :
    MediaStores env w' := by
  refine ⟨hc, fun ownerId context digest id hid => ?_⟩
  obtain ⟨m, hm, ho⟩ := h.dedup ownerId context digest id (hd _ _ hid)
  obtain ⟨m', hm', hb⟩ := hl id m hm
  exact ⟨m', hm', hb.ownerId_eq ▸ ho⟩

theorem mediaStores_exec (h : MediaStores env w) (hc : ∀ key id ttl, c ≠ .setDedup key id ttl) :
    MediaStores env (env.exec c w).2 := by
  refine h.later mediaLater_exec (rowsCanonical_exec h.canonical) fun key id hid => ?_
  rwa [dedupCache_exec hc] at hid

/-- The entry that an upload stores for the row it has inserted. -/
theorem mediaStores_setDedup (h : MediaStores env w) {ownerId id : String} {context : MediaContext}
    {digest : List (Fin 16)} {ttl : Nat} {m : Media} (hm : w.media.get id = some m)
    (ho : env.uuidIn ownerId = some m.ownerId) :
    MediaStores env (env.exec (.setDedup (dedupKey ownerId context digest) id ttl) w).2 := by
  refine ⟨h.canonical, fun o c d i hi => ?_⟩
  by_cases hk : dedupKey o c d = dedupKey ownerId context digest
  · simp only [Env.exec, hk, Function.update_self, Option.some.injEq] at hi
    subst hi
    exact ⟨m, hm, dedupKey_ownerId hk ▸ ho⟩
  · simp only [Env.exec, Function.update_of_ne hk] at hi
    exact h.dedup o c d i hi

/-- The row that an entry of the uploader has led to is his own. -/
theorem owner_of_entry (h : MediaStores env w) {ownerId id : String} {context : MediaContext}
    {digest : List (Fin 16)} (he : w.dedupCache (dedupKey ownerId context digest) = some id)
    {existing : Media} (hid : env.uuidIn id = some existing.id) (hl : MediaLater w w')
    (hlives : LivesOn existing w') : env.uuidIn ownerId = some existing.ownerId := by
  obtain ⟨row, hrow, ho⟩ := h.dedup ownerId context digest id he
  -- the id of the entry is the id of the row it points to
  have hcanon : env.uuidIn id = some id := media_id hrow ▸ (h.canonical _ _ hrow).id
  obtain rfl : id = existing.id := Option.some.inj (hcanon.symm.trans hid)
  obtain ⟨row', hrow', hb'⟩ := hl _ row hrow
  obtain ⟨now, hnow, hb⟩ := hlives
  obtain rfl := Option.some.inj (hnow.symm.trans hrow')
  rw [ho, ← hb'.ownerId_eq, hb.ownerId_eq]

theorem mediaStores_act (a : Act) (h : MediaStores env w) : MediaStores env (a.apply w) := by
  have hm := act_media a w
  refine h.later (MediaLater.of_eq hm) (fun k m hk => ?_) fun key id => act_dedupCache
  exact h.canonical k m (hm ▸ hk)

end

end WhisprMedia
