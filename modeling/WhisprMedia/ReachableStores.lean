import WhisprMedia.DedupEntries
import Mathlib.Algebra.Order.PUnit

/-! Rows and dedup entries in every state that requests reach, however they overlap. -/
namespace WhisprMedia
open Awaiting Keyed MediaService QuotaService

/-- Rows stay, and entries point to rows. -/
def storesDiscipline (env : Env) : Discipline (service env) Unit Unit where
  start _ := ()
  next _ _ _ := ()
  value _ := ()
  inv w _ := MediaStores env w
  rely w _ w' _ := MediaLater w w'
  may _ _ _ _ := True
  rely_refl w _ := MediaLater.refl w
  rely_trans h h' := h.trans h'

section
variable {env : Env} {g m : Unit} {w w' : World} {c : Cmd}

abbrev AnyEnd {α : Type} : α → Unit → World → Unit → Prop := fun _ _ _ _ => True

theorem stores_neutral (hc : ∀ key id ttl, c ≠ .setDedup key id ttl) :
    (storesDiscipline env).Neutral g c :=
  fun _ _ hi _ => ⟨rfl, mediaStores_exec hi hc, mediaLater_exec⟩

theorem stores_neutrals {F : List Family} (hF : Family.dedup ∉ F) :
    ∀ c : Cmd, c.family ∈ F → (storesDiscipline env).Neutral g c := by
  intro c hc
  apply stores_neutral
  rintro key id ttl rfl
  exact hF hc

/-- A row of the user that stays. -/
def OwnsRow (env : Env) (ownerId id : String) (w : World) : Prop :=
  ∃ r, w.media.get id = some r ∧ env.uuidIn ownerId = some r.ownerId

theorem OwnsRow.later {ownerId id : String} (h : OwnsRow env ownerId id w) (hl : MediaLater w w') :
    OwnsRow env ownerId id w' := by
  obtain ⟨r, hr, ho⟩ := h
  obtain ⟨r', hr', hb⟩ := hl id r hr
  exact ⟨r', hr', hb.ownerId_eq ▸ ho⟩

/-- An upload that has inserted its row leaves it there. -/
theorem saveMedia_stores {ownerId : String} {media : Media}
    (hid : env.uuidIn media.id = some media.id) :
    (storesDiscipline env).Keeps (saveMedia ownerId media) g w m
      (fun _ _ w' _ => OwnsRow env ownerId media.id w') AnyEnd := by
  refine saveMedia_of_insert (fun _ c hc => stores_neutrals (F := [.bucket]) (by decide) c (by simp [hc]))
    ((keeps_await_neutral (stores_neutral (by simp))).mono (fun _ g' w₁ m₁ _ h => ?_)
      fun _ _ _ _ _ _ => trivial)
  obtain ⟨w₀, u, m₀, -, -, -, he, -, -, hl⟩ := h.2.answered
  rcases exec_saveMedia he with ⟨r, -, hin, howner, hn, rfl⟩ | ⟨e, he, -⟩
  · have hrid : r.id = media.id := Option.some.inj ((mediaIn_eq hin).1.symm.trans hid)
    have hget : (w₀.media.insert r).get media.id = some r := by
      rw [get_insertMedia hn, if_pos hrid.symm]
    have hrow : OwnsRow env ownerId media.id { w₀ with media := w₀.media.insert r } :=
      ⟨r, hget, howner⟩
    exact hrow.later hl
  · cases he

theorem storeNew_stores (ownerId : String) (file : File) (context : MediaContext)
    (thumbnailFile : Option File) (sharedWith : Option (List String)) :
    (storesDiscipline env).Keeps (storeNew env ownerId file context thumbnailFile sharedWith) g w m
      (fun media _ w' _ => OwnsRow env ownerId media.id w') AnyEnd := by
  refine storeNew_of_saveMedia (stores_neutrals (by decide)) (fun _ _ _ _ => trivial)
    fun media w' m' _ hmedia => ?_
  exact saveMedia_stores hmedia.uuid

theorem uploadHeld_stores (ownerId : String) (file : File) (context : MediaContext)
    (thumbnailFile : Option File) (sharedWith : Option (List String)) :
    (storesDiscipline env).Keeps (uploadHeld env ownerId file context thumbnailFile sharedWith) g w m
      AnyEnd AnyEnd := by
  refine uploadHeld_of_checked (stores_neutrals (by decide)) (fun _ _ _ _ => trivial)
    fun w₃ m₃ _ _ => ?_
  refine Discipline.Keeps.bind (Q := AnyEnd) ((findDuplicate_keeps (stores_neutral (by simp))
    fun id => stores_neutral (by simp)).mono (fun _ _ _ _ _ _ => trivial)
    fun _ _ _ _ _ _ => trivial) fun duplicate g' w₄ m₄ _ _ => ?_
  cases duplicate with
  | some existing =>
    refine keeps_after_touch (mergeSharedWith_touches ownerId existing sharedWith)
      (stores_neutrals (by decide)) (fun _ _ _ _ _ => trivial) fun _ w₅ m₅ _ _ => ?_
    exact keeps_of_touch (buildUploadResponse_touches env existing) (stores_neutrals (by decide))
      (fun _ _ _ _ _ => trivial) fun _ _ _ _ _ => trivial
  | none =>
    refine Discipline.Keeps.bind (storeNew_stores ownerId file context thumbnailFile sharedWith)
      fun media g₁ w₅ m₅ hi₅ h₅ => ?_
    refine Discipline.Keeps.bind (Q := AnyEnd) (keeps_await fun w' f r u hr hi _ he => ?_)
      fun _ g₂ w₆ m₆ _ _ => ?_
    · -- the entry points to the row that was inserted
      obtain ⟨row, hrow, ho⟩ := h₅ w' _ hr hi
      have hinv := @mediaStores_setDedup env w' hi ownerId media.id context
        (env.sha256 (fileBuffer file)) DEDUP_CACHE_TTL_MS row hrow ho
      obtain ⟨rfl, rfl⟩ := Prod.mk.inj he
      exact ⟨hinv, MediaLater.of_eq rfl, fun _ _ _ _ => trivial⟩
    · refine keeps_after_touch (recordUpload_touches ownerId _) (stores_neutrals (by decide))
        (fun _ _ _ _ _ => trivial) fun _ w₇ m₇ _ _ => ?_
      exact keeps_of_touch (buildUploadResponse_touches env media) (stores_neutrals (by decide))
        (fun _ _ _ _ _ => trivial) fun _ _ _ _ _ => trivial

theorem handle_stores (x : Call) :
    (storesDiscipline env).Keeps (handle env x) g w m AnyEnd AnyEnd := by
  cases x with
  | upload ownerId file context thumbnailFile sharedWith =>
    refine Discipline.Keeps.map (upload_of_held (Q := AnyEnd) (E := fun _ _ _ => True)
      (fun g c hc => stores_neutrals (F := [.semaphore]) (by decide) c (by simp [hc]))
      (fun _ _ _ _ => trivial) (fun _ _ _ _ _ => trivial) fun w' m' _ _ =>
        uploadHeld_stores ownerId file context thumbnailFile sharedWith) fun _ _ _ _ _ _ => trivial
  | _ =>
    exact keeps_of_touch (handle_touches env _ (by simp)) (stores_neutrals (by decide))
      (fun _ _ _ _ _ => trivial) fun _ _ _ _ _ => trivial

end

theorem stores_sound (env : Env) : (storesDiscipline env).Sound (fun _ _ _ _ _ => True)
    fun _ _ => True where
  call _ x _ := ⟨rfl, fun _ _ _ => (handle_stores x).upholds.mono fun _ _ _ _ _ _ => trivial⟩
  fork _ x _ := ⟨rfl, fun _ _ _ => (handle_stores x).upholds.mono fun _ _ _ _ _ _ => trivial⟩
  act p a _ _ hi := ⟨mediaStores_act a hi, MediaLater.of_eq (act_media a p.world)⟩
  step _ _ _ _ _ _ _ _ := trivial

/-- Whatever requests have done, rows are canonical and dedup entries point to rows. -/
theorem mediaStores_reachable {env : Env} {p : ServicePool}
    (h : (service env).Runs (fun _ _ => True) ⟨World.empty, []⟩ p) : MediaStores env p.world := by
  have hstart : (storesDiscipline env).inv World.empty 0 := mediaStores_empty env
  exact ((Discipline.holds_of_empty hstart).runs (stores_sound env) h).1.inv

end WhisprMedia
