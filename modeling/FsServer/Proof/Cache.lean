import FsServer.Cache
import FsServer.Lib.Timeline

/-!
# The cache is an LRU map with expiry

Every operation of the cache removes one key from the map and the list together, or puts one key at
the front of the list and its entry into the map. The two are kept in step by the identities of the
elements. Along a run the list is ordered by the last use of its keys, and the map holds what was set
last and has not ended since.
-/

namespace FsServer

open Lib Cache

namespace Cache

variable {V : Type} {cache : Cache V} {key : String} {item : CacheEntry V} {element : Element}

/-! ### The map and the list -/

def keys (cache : Cache V) : List String := cache.lru.map Element.key

structure Linked (cache : Cache V) : Prop where
  key_eq : ∀ {key item}, cache.items.lookup key = some item → item.key = key
  mem_lru : ∀ {key item}, cache.items.lookup key = some item → ⟨item.elem, key⟩ ∈ cache.lru
  lookup_of_mem : ∀ {element}, element ∈ cache.lru →
    ∃ item, cache.items.lookup element.key = some item ∧ item.elem = element.id
  keys_nodup : cache.keys.Nodup
  ids_nodup : (cache.lru.map Element.id).Nodup
  id_lt : ∀ element ∈ cache.lru, element.id < cache.fresh

theorem Linked.mem_items_iff (h : cache.Linked) : key ∈ cache.items ↔ key ∈ cache.keys := by
  rw [Finmap.mem_iff]
  constructor
  · rintro ⟨item, hitem⟩
    exact List.mem_map.mpr ⟨_, h.mem_lru hitem, rfl⟩
  · intro hmem
    obtain ⟨element, helement, rfl⟩ := List.mem_map.mp hmem
    obtain ⟨item, hitem, -⟩ := h.lookup_of_mem helement
    exact ⟨item, hitem⟩

theorem Linked.id_eq_iff (h : cache.Linked) (hitem : cache.items.lookup key = some item)
    (hmem : element ∈ cache.lru) : element.id = item.elem ↔ element.key = key := by
  constructor
  · intro hid
    have hsame : element = ⟨item.elem, key⟩ :=
      List.inj_on_of_nodup_map h.ids_nodup hmem (h.mem_lru hitem) hid
    rw [hsame]
  · intro hkey
    have hsame : element = ⟨item.elem, key⟩ :=
      List.inj_on_of_nodup_map h.keys_nodup hmem (h.mem_lru hitem) hkey
    rw [hsame]

def without (cache : Cache V) (key : String) : Cache V :=
  { cache with
    lru := cache.lru.filter fun element => element.key ≠ key
    items := cache.items.erase key }

def touch (cache : Cache V) (item : CacheEntry V) (fresh : Nat) : Cache V :=
  { cache with
    lru := ⟨item.elem, item.key⟩ :: cache.lru.filter fun element => element.key ≠ item.key
    items := cache.items.insert item.key item
    fresh := fresh }

theorem keys_without (cache : Cache V) (key : String) :
    (cache.without key).keys = cache.keys.filter fun other => other ≠ key := by
  unfold keys without
  rw [List.filter_map]
  rfl

theorem keys_touch (cache : Cache V) (item : CacheEntry V) (fresh : Nat) :
    (cache.touch item fresh).keys =
      item.key :: cache.keys.filter fun other => other ≠ item.key := by
  unfold keys touch
  rw [List.filter_map, List.map_cons]
  rfl

theorem lookup_without (cache : Cache V) (key other : String) :
    (cache.without key).items.lookup other =
      if other = key then none else cache.items.lookup other := by
  unfold without
  split_ifs with heq
  · rw [heq, Finmap.lookup_erase]
  · rw [Finmap.lookup_erase_ne heq]

theorem lookup_touch (cache : Cache V) (item : CacheEntry V) (fresh : Nat) (other : String) :
    (cache.touch item fresh).items.lookup other =
      if other = item.key then some item else cache.items.lookup other := by
  unfold touch
  split_ifs with heq
  · rw [heq, Finmap.lookup_insert]
  · rw [Finmap.lookup_insert_of_ne _ heq]

theorem Linked.without (h : cache.Linked) (key : String) : (cache.without key).Linked where
  key_eq {other item} hitem := by
    rw [lookup_without] at hitem
    split_ifs at hitem
    exact h.key_eq hitem
  mem_lru {other item} hitem := by
    rw [lookup_without] at hitem
    split_ifs at hitem with heq
    exact List.mem_filter.mpr ⟨h.mem_lru hitem, decide_eq_true heq⟩
  lookup_of_mem {element} hmem := by
    obtain ⟨hmem, hne⟩ := List.mem_filter.mp hmem
    rw [lookup_without, if_neg (of_decide_eq_true hne)]
    exact h.lookup_of_mem hmem
  keys_nodup := by
    rw [keys_without]
    exact h.keys_nodup.filter _
  ids_nodup := h.ids_nodup.sublist (List.filter_sublist.map _)
  id_lt element hmem := h.id_lt element (List.mem_filter.mp hmem).1

theorem Linked.touch (h : cache.Linked) {fresh : Nat}
    (hown : ∀ element ∈ cache.lru, element.id = item.elem → element.key = item.key)
    (hle : cache.fresh ≤ fresh) (hlt : item.elem < fresh) : (cache.touch item fresh).Linked where
  key_eq {other found} hfound := by
    rw [lookup_touch] at hfound
    split_ifs at hfound with heq
    · cases hfound
      exact heq.symm
    · exact h.key_eq hfound
  mem_lru {other found} hfound := by
    rw [lookup_touch] at hfound
    split_ifs at hfound with heq
    · cases hfound
      rw [heq]
      exact List.mem_cons_self
    · exact List.mem_cons_of_mem _ (List.mem_filter.mpr ⟨h.mem_lru hfound, decide_eq_true heq⟩)
  lookup_of_mem {element} hmem := by
    rw [lookup_touch]
    rcases List.mem_cons.mp hmem with rfl | hmem
    · rw [if_pos rfl]
      exact ⟨item, rfl, rfl⟩
    · obtain ⟨hmem, hne⟩ := List.mem_filter.mp hmem
      rw [if_neg (of_decide_eq_true hne)]
      exact h.lookup_of_mem hmem
  keys_nodup := by
    rw [keys_touch, List.nodup_cons]
    exact ⟨fun hmem => of_decide_eq_true (List.mem_filter.mp hmem).2 rfl, h.keys_nodup.filter _⟩
  ids_nodup := by
    unfold Cache.touch
    rw [List.map_cons, List.nodup_cons]
    refine ⟨fun hmem => ?_, h.ids_nodup.sublist (List.filter_sublist.map _)⟩
    obtain ⟨element, hfilter, hid⟩ := List.mem_map.mp hmem
    obtain ⟨hmem, hne⟩ := List.mem_filter.mp hfilter
    exact of_decide_eq_true hne (hown element hmem hid)
  id_lt element hmem := by
    rcases List.mem_cons.mp hmem with rfl | hmem
    · exact hlt
    · exact (h.id_lt element (List.mem_filter.mp hmem).1).trans_le hle

/-! ### What the operations do -/

theorem Linked.removeElement_eq (h : cache.Linked) (hitem : cache.items.lookup key = some item) :
    cache.removeElement item.elem item.key = cache.without key := by
  unfold removeElement Cache.without
  rw [h.key_eq hitem]
  congr 1
  refine List.filter_congr fun element hmem => ?_
  rw [decide_eq_decide, ne_eq, ne_eq, h.id_eq_iff hitem hmem]

theorem Linked.without_of_notMem (h : cache.Linked) (hkey : key ∉ cache.items) :
    cache.without key = cache := by
  have hitems : cache.items.erase key = cache.items := by
    refine Finmap.ext_lookup fun other => ?_
    by_cases heq : other = key
    · rw [heq, Finmap.lookup_erase, Finmap.lookup_eq_none.mpr hkey]
    · rw [Finmap.lookup_erase_ne heq]
  have hlru : (cache.lru.filter fun element => element.key ≠ key) = cache.lru := by
    refine List.filter_eq_self.mpr fun element hmem => decide_eq_true fun heq => hkey ?_
    rw [h.mem_items_iff, ← heq]
    exact List.mem_map_of_mem hmem
  unfold Cache.without
  rw [hitems, hlru]

section

variable (h : cache.Linked) (hitem : cache.items.lookup key = some item)
include h hitem

theorem Linked.moveToFront_eq :
    moveToFront item.elem cache.lru =
      ⟨item.elem, key⟩ :: cache.lru.filter fun element => element.key ≠ key := by
  have hnodup : cache.lru.Nodup := List.Nodup.of_map _ h.ids_nodup
  have hself : (cache.lru.filter fun element => element.id = item.elem) = [⟨item.elem, key⟩] := by
    have hsame : (cache.lru.filter fun element => element.id = item.elem) =
        cache.lru.filter fun element => element = ⟨item.elem, key⟩ := by
      refine List.filter_congr fun element hmem => ?_
      rw [decide_eq_decide]
      refine ⟨fun hid => ?_, fun heq => by rw [heq]⟩
      exact List.inj_on_of_nodup_map h.ids_nodup hmem (h.mem_lru hitem) hid
    rw [hsame, List.filter_eq, List.count_eq_one_of_mem hnodup (h.mem_lru hitem)]
    rfl
  have hrest : (cache.lru.filter fun element => element.id ≠ item.elem) =
      cache.lru.filter fun element => element.key ≠ key := by
    refine List.filter_congr fun element hmem => ?_
    rw [decide_eq_decide, ne_eq, ne_eq, h.id_eq_iff hitem hmem]
  unfold moveToFront
  rw [hself, hrest, List.singleton_append]

theorem Linked.touch_eq (newer : CacheEntry V) (helem : newer.elem = item.elem)
    (hkey : newer.key = item.key) :
    { cache with
      items := cache.items.insert key newer
      lru := moveToFront item.elem cache.lru } = cache.touch newer cache.fresh := by
  unfold Cache.touch
  rw [h.moveToFront_eq hitem, hkey, h.key_eq hitem, helem]

theorem Linked.touch_of_lookup {newer : CacheEntry V} (helem : newer.elem = item.elem)
    (hkey : newer.key = item.key) :
    (cache.touch newer cache.fresh).Linked := by
  refine h.touch (fun element hmem hid => ?_) le_rfl ?_
  · rw [hkey, h.key_eq hitem]
    exact (h.id_eq_iff hitem hmem).mp (hid.trans helem)
  · rw [helem]
    exact h.id_lt _ (h.mem_lru hitem)

end

variable {now : Time}

theorem get_of_none (hitem : cache.items.lookup key = none) : cache.get now key = (none, cache) := by
  unfold get
  rw [hitem]

theorem Linked.get_of_expired (h : cache.Linked) (hitem : cache.items.lookup key = some item)
    (hexpired : cache.expired now item = true) :
    cache.get now key = (none, cache.without key) := by
  unfold get
  rw [hitem, ← h.removeElement_eq hitem]
  exact if_pos hexpired

theorem Linked.get_of_current (h : cache.Linked) (hitem : cache.items.lookup key = some item)
    (hcurrent : cache.expired now item = false) :
    cache.get now key = (some item.value, cache.touch item cache.fresh) := by
  have hsame : cache.items.insert key item = cache.items := by
    refine Finmap.ext_lookup fun other => ?_
    by_cases heq : other = key
    · rw [heq, Finmap.lookup_insert, hitem]
    · rw [Finmap.lookup_insert_of_ne _ heq]
  have htouch := h.touch_eq hitem item rfl rfl
  rw [hsame] at htouch
  unfold get
  rw [hitem, ← htouch]
  exact if_neg (by rw [hcurrent]; exact Bool.false_ne_true)

theorem Linked.delete_eq (h : cache.Linked) (key : String) : cache.delete key = cache.without key := by
  unfold delete
  cases hitem : cache.items.lookup key with
  | none => exact (h.without_of_notMem (Finmap.lookup_eq_none.mp hitem)).symm
  | some item => exact h.removeElement_eq hitem

theorem Linked.cleanupItem_eq (h : cache.Linked) (key : String) :
    cache.cleanupItem now key =
      if (cache.items.lookup key).any (cache.expired now) then cache.without key else cache := by
  unfold cleanupItem
  cases hitem : cache.items.lookup key with
  | none => rfl
  | some item => rw [← h.removeElement_eq hitem, Option.any_some]

def room (cache : Cache V) (key : String) : Cache V :=
  match cache.evicted key with
  | some victim => cache.without victim
  | none => cache

theorem Linked.room (h : cache.Linked) (key : String) : (cache.room key).Linked := by
  unfold Cache.room
  cases cache.evicted key with
  | none => exact h
  | some victim => exact h.without victim

theorem room_fresh (cache : Cache V) (key : String) : (cache.room key).fresh = cache.fresh := by
  unfold Cache.room
  cases cache.evicted key with
  | none => rfl
  | some victim => rfl

theorem room_maxSize (cache : Cache V) (key : String) :
    (cache.room key).maxSize = cache.maxSize := by
  unfold Cache.room
  cases cache.evicted key with
  | none => rfl
  | some victim => rfl

theorem room_ttl (cache : Cache V) (key : String) : (cache.room key).ttl = cache.ttl := by
  unfold Cache.room
  cases cache.evicted key with
  | none => rfl
  | some victim => rfl

theorem lookup_room (cache : Cache V) (key other : String) :
    (cache.room key).items.lookup other =
      if cache.evicted key = some other then none else cache.items.lookup other := by
  unfold Cache.room
  cases cache.evicted key with
  | none => rw [if_neg nofun]
  | some victim => simp only [lookup_without, Option.some.injEq, eq_comm]

theorem evicted_of_mem (hkey : key ∈ cache.items) : cache.evicted key = none :=
  if_neg fun h => h.1 hkey

theorem Linked.evict_eq (h : cache.Linked) (hkey : key ∉ cache.items) :
    cache.evict = cache.room key := by
  unfold evict Cache.room evicted
  by_cases hfull : 0 < cache.maxSize ∧ cache.maxSize ≤ cache.size
  · rw [if_pos hfull, if_pos ⟨hkey, hfull⟩]
    cases hback : cache.lru.getLast? with
    | none => rfl
    | some back =>
      obtain ⟨item, hitem, helem⟩ := h.lookup_of_mem (List.mem_of_getLast? hback)
      have hremove := h.removeElement_eq hitem
      rw [helem, h.key_eq hitem] at hremove
      exact hremove
  · rw [if_neg hfull, if_neg fun hboth => hfull hboth.2]

def written (cache : Cache V) (now : Time) (key : String) (value : V) : CacheEntry V where
  key := key
  value := value
  expiresAt := cache.expiresAt now
  elem := ((cache.items.lookup key).map CacheEntry.elem).getD cache.fresh

theorem Linked.set_eq (h : cache.Linked) (now : Time) (key : String) (value : V) :
    ∃ fresh, cache.set now key value = (cache.room key).touch (cache.written now key value) fresh ∧
      (cache.set now key value).Linked := by
  cases hitem : cache.items.lookup key with
  | some existing =>
    have hroom : cache.room key = cache := by
      unfold Cache.room
      rw [evicted_of_mem (Finmap.mem_of_lookup_eq_some hitem)]
    have hwritten : cache.written now key value =
        { existing with value := value, expiresAt := cache.expiresAt now } := by
      unfold written
      rw [hitem, ← h.key_eq hitem]
      rfl
    have hset : cache.set now key value =
        cache.touch (cache.written now key value) cache.fresh := by
      rw [hwritten]
      unfold set
      rw [hitem]
      exact h.touch_eq hitem _ rfl rfl
    rw [hset, hroom]
    refine ⟨cache.fresh, rfl, ?_⟩
    rw [hwritten]
    exact h.touch_of_lookup hitem rfl rfl
  | none =>
    have hkey : key ∉ cache.items := Finmap.lookup_eq_none.mp hitem
    have hroom : key ∉ (cache.room key).items := by
      rw [← Finmap.lookup_eq_none, lookup_room, hitem, ite_self]
    have hwritten : cache.written now key value =
        ⟨key, value, (cache.room key).expiresAt now, (cache.room key).fresh⟩ := by
      unfold written expiresAt
      rw [hitem, room_ttl, room_fresh]
      rfl
    have hlru : ((cache.room key).lru.filter fun element => element.key ≠ key) =
        (cache.room key).lru :=
      congrArg lru ((h.room key).without_of_notMem hroom)
    have hset : cache.set now key value =
        (cache.room key).touch (cache.written now key value) ((cache.room key).fresh + 1) := by
      unfold set
      rw [hitem, hwritten]
      dsimp only
      rw [h.evict_eq hkey]
      unfold pushFront Cache.touch
      rw [hlru]
    rw [hset]
    refine ⟨_, rfl, (h.room key).touch (fun element hmem hid => ?_) (Nat.le_succ _) ?_⟩
    · rw [hwritten] at hid
      exact absurd hid ((h.room key).id_lt element hmem).ne
    · rw [hwritten]
      exact Nat.lt_succ_self _

theorem ttl_set (h : cache.Linked) (now : Time) (key : String) (value : V) :
    (cache.set now key value).ttl = cache.ttl := by
  obtain ⟨fresh, hset, -⟩ := h.set_eq now key value
  rw [hset]
  exact room_ttl cache key

theorem maxSize_set (h : cache.Linked) (now : Time) (key : String) (value : V) :
    (cache.set now key value).maxSize = cache.maxSize := by
  obtain ⟨fresh, hset, -⟩ := h.set_eq now key value
  rw [hset]
  exact room_maxSize cache key

theorem lookup_set (h : cache.Linked) (now : Time) (key other : String) (value : V) :
    (cache.set now key value).items.lookup other =
      if other = key then some (cache.written now key value)
      else if cache.evicted key = some other then none else cache.items.lookup other := by
  obtain ⟨fresh, hset, -⟩ := h.set_eq now key value
  rw [hset, lookup_touch, lookup_room]
  rfl

theorem expired_of_ttl {other : Cache V} (h : other.ttl = cache.ttl) (now : Time)
    (item : CacheEntry V) : other.expired now item = cache.expired now item := by
  unfold expired
  rw [h]

/-- What a sweep has done when it has met the keys of `scan`. -/
structure Swept (cache after : Cache V) (now : Time) (scan : List String) : Prop where
  linked : after.Linked
  ttl : after.ttl = cache.ttl
  maxSize : after.maxSize = cache.maxSize
  keys : after.keys.Sublist cache.keys
  lookup : ∀ other, after.items.lookup other =
    if other ∈ scan then (cache.items.lookup other).filter fun item => !cache.expired now item
    else cache.items.lookup other

theorem Linked.cleanupItem (h : cache.Linked) (now : Time) (key : String) :
    cache.Swept (cache.cleanupItem now key) now [key] := by
  rw [h.cleanupItem_eq key]
  split_ifs with hany
  · refine ⟨h.without key, rfl, rfl, ?_, fun other => ?_⟩
    · rw [keys_without]
      exact List.filter_sublist
    · rw [lookup_without]
      by_cases heq : other = key
      · subst heq
        rw [if_pos rfl, if_pos (List.mem_singleton_self other)]
        cases hitem : cache.items.lookup other with
        | none => rfl
        | some item =>
          rw [hitem, Option.any_some] at hany
          rw [Option.filter_some, hany]
          rfl
      · rw [if_neg heq, if_neg (fun hmem => heq (List.mem_singleton.mp hmem))]
  · refine ⟨h, rfl, rfl, List.Sublist.refl _, fun other => ?_⟩
    split_ifs with hmem
    · rw [List.mem_singleton] at hmem
      subst hmem
      cases hitem : cache.items.lookup other with
      | none => rfl
      | some item =>
        rw [hitem, Option.any_some, Bool.not_eq_true] at hany
        rw [Option.filter_some, hany]
        rfl
    · rfl

theorem Swept.trans {middle last : Cache V} {now : Time} {first second : List String}
    (hfirst : cache.Swept middle now first) (hsecond : middle.Swept last now second) :
    cache.Swept last now (first ++ second) where
  linked := hsecond.linked
  ttl := hsecond.ttl.trans hfirst.ttl
  maxSize := hsecond.maxSize.trans hfirst.maxSize
  keys := hsecond.keys.trans hfirst.keys
  lookup other := by
    rw [hsecond.lookup, hfirst.lookup]
    simp only [expired_of_ttl hfirst.ttl, List.mem_append]
    by_cases hone : other ∈ first
    · by_cases htwo : other ∈ second
      · simp [hone, htwo, Option.filter_filter]
      · simp [hone, htwo]
    · by_cases htwo : other ∈ second
      · simp [hone, htwo]
      · simp [hone, htwo]

/-- A sweep takes out the entries that are over, and changes nothing else. -/
theorem Linked.cleanup (h : cache.Linked) (now : Time) (scan : List String) :
    cache.Swept (cache.cleanup now scan) now scan := by
  induction scan generalizing cache with
  | nil => exact ⟨h, rfl, rfl, List.Sublist.refl _, fun other => (if_neg List.not_mem_nil).symm⟩
  | cons key rest ih =>
    have hitem := h.cleanupItem now key
    exact hitem.trans (ih hitem.linked)

theorem Linked.size_eq (h : cache.Linked) : cache.size = cache.keys.length := by
  have hkeys : cache.items.keys = cache.keys.toFinset := by
    ext key
    rw [Finmap.mem_keys, List.mem_toFinset, h.mem_items_iff]
  unfold size
  rw [hkeys, List.toFinset_card_of_nodup h.keys_nodup]

theorem linked_empty (ttl maxSize : Int) (fresh : Nat) :
    (⟨∅, [], ttl, maxSize, fresh⟩ : Cache V).Linked where
  key_eq hitem := by
    rw [Finmap.lookup_empty] at hitem
    cases hitem
  mem_lru hitem := by
    rw [Finmap.lookup_empty] at hitem
    cases hitem
  lookup_of_mem hmem := nomatch hmem
  keys_nodup := List.nodup_nil
  ids_nodup := List.nodup_nil
  id_lt _ hmem := nomatch hmem

theorem length_filter_ne {keys : List String} (hnodup : keys.Nodup) (hmem : key ∈ keys) :
    (keys.filter fun other => other ≠ key).length + 1 = keys.length := by
  have herase : (keys.filter fun other => other ≠ key) = keys.erase key := by
    rw [hnodup.erase_eq_filter]
    refine List.filter_congr fun other _ => ?_
    by_cases heq : other = key
    · simp [heq]
    · simp [heq]
  rw [herase, List.length_erase_of_mem hmem]
  have := List.length_pos_of_mem hmem
  omega

end Cache

/-! ### What the history says -/

section Log

variable {V : Type}

/-- A value stored at the one time is over at the other. -/
def Expired (ttl : Int) (stored now : Time) : Prop := 0 < ttl ∧ stored + ttl * second < now

instance (ttl : Int) (stored now : Time) : Decidable (Expired ttl stored now) :=
  inferInstanceAs (Decidable (_ ∧ _))

theorem Expired.mono {ttl : Int} {stored now later : Time} (h : Expired ttl stored now)
    (hle : now ≤ later) : Expired ttl stored later :=
  ⟨h.1, h.2.trans_le (Int.ofNat_le.mpr hle)⟩

def uses (key : String) (entry : CacheCall V × CacheReply V) : Bool :=
  match entry.1.op, entry.2 with
  | .get used, .got (some _) => used = key
  | .set used _, _ => used = key
  | _, _ => false

def CacheReply.evictedKey : CacheReply V → Option String
  | .evicted key => key
  | _ => none

/-- A later call sets the key, deletes it, clears or evicts it, or finds that what was stored has
expired. -/
def Ends (ttl : Int) (key : String) (stored : Time) (entry : CacheCall V × CacheReply V) : Prop :=
  match entry.1.op with
  | .get looked => looked = key ∧ Expired ttl stored entry.1.time
  | .has looked => looked = key ∧ Expired ttl stored entry.1.time
  | .set other _ => other = key ∨ entry.2.evictedKey = some key
  | .delete deleted => deleted = key
  | .clear => True
  | .cleanup => Expired ttl stored entry.1.time

/-- The last `Set` of the key stored the value, nothing has ended it since, and it has not expired. -/
def Stored (ttl : Int) (past : List (CacheCall V × CacheReply V)) (key : String) (value : V)
    (now : Time) : Prop :=
  ∃ before stored reply since, past = before ++ (⟨.set key value, stored⟩, reply) :: since ∧
    (∀ later ∈ since, ¬ Ends ttl key stored later) ∧ ¬ Expired ttl stored now

/-- The state is what the calls on an LRU map with expiry lead to. -/
structure CacheState.Correct (ttl maxSize : Int) (past : List (CacheCall V × CacheReply V))
    (state : CacheState V) : Prop where
  coincide : ∀ key, key ∈ state.cache.items ↔ key ∈ state.cache.lru.map Element.key
  once : (state.cache.lru.map Element.key).Nodup
  bounded : 0 < maxSize → state.cache.size ≤ maxSize
  recency : (state.cache.lru.map Element.key).Pairwise
    fun first second => lastUse (uses second) past < lastUse (uses first) past
  evicts : ∀ key, key ∉ state.cache.items → 0 < maxSize → maxSize ≤ state.cache.size →
    ∃ victim, state.cache.evicted key = some victim ∧ victim ∈ state.cache.items ∧
      (∀ other ∈ state.cache.items, other ≠ victim →
        lastUse (uses victim) past < lastUse (uses other) past) ∧
      ∀ now value other, other ∈ (state.cache.set now key value).items ↔
        other = key ∨ other ∈ state.cache.items ∧ other ≠ victim
  hit : ∀ key value now, state.clock ≤ now →
    ((state.cache.get now key).1 = some value ↔ Stored ttl past key value now)

end Log

/-! ### The invariant of a run -/

section Run

variable {V : Type} {ttl maxSize : Int} {past : List (CacheCall V × CacheReply V)}

def setsKey (key : String) (entry : CacheCall V × CacheReply V) : Option (V × Time) :=
  match entry.1.op with
  | .set other value => if other = key then some (value, entry.1.time) else none
  | _ => none

def drops (ttl : Int) (key : String) (entry : CacheCall V × CacheReply V) (stored : V × Time) :
    Bool :=
  match entry.1.op with
  | .get looked => looked = key ∧ Expired ttl stored.2 entry.1.time
  | .set _ _ => entry.2.evictedKey = some key
  | .delete deleted => deleted = key
  | .clear => true
  | .cleanup => Expired ttl stored.2 entry.1.time
  | .has _ => false

def deadline (ttl : Int) (stored : Time) : Int :=
  if 0 < ttl then stored + ttl * second else zeroTime

structure CacheState.Sound (ttl maxSize : Int) (past : List (CacheCall V × CacheReply V))
    (state : CacheState V) : Prop where
  linked : state.cache.Linked
  ttl_eq : state.cache.ttl = ttl
  maxSize_eq : state.cache.maxSize = maxSize
  bounded : 0 < maxSize → state.cache.keys.length ≤ maxSize
  times : ∀ entry ∈ past, entry.1.time ≤ state.clock
  recency : ByUse (fun key => lastUse (uses key) past) state.cache.keys
  contents : ∀ key, (state.cache.items.lookup key).map (fun item => (item.value, item.expiresAt)) =
    (inForce (setsKey key) (drops ttl key) past).map
      fun stored => (stored.1, deadline ttl stored.2)

namespace CacheState

variable {state : CacheState V} {entry : CacheCall V × CacheReply V} {key : String} {now : Time}

theorem inForce_of_kept (hsets : setsKey key entry = none)
    (hdrops : ∀ stored, inForce (setsKey key) (drops ttl key) past = some stored →
      drops ttl key entry stored = false) :
    inForce (setsKey key) (drops ttl key) (past ++ [entry]) =
      inForce (setsKey key) (drops ttl key) past := by
  rw [inForce_snoc, hsets, Option.none_or]
  cases hforce : inForce (setsKey key) (drops ttl key) past with
  | none => rfl
  | some stored =>
    rw [Option.filter_some, hdrops stored hforce]
    rfl

theorem inForce_of_dropped (hsets : setsKey key entry = none)
    (hdrops : ∀ stored, inForce (setsKey key) (drops ttl key) past = some stored →
      drops ttl key entry stored = true) :
    inForce (setsKey key) (drops ttl key) (past ++ [entry]) = none := by
  rw [inForce_snoc, hsets, Option.none_or]
  cases hforce : inForce (setsKey key) (drops ttl key) past with
  | none => rfl
  | some stored =>
    rw [Option.filter_some, hdrops stored hforce]
    rfl

theorem byUse_of_unused {keys fewer : List String}
    (h : ByUse (fun key => lastUse (uses key) past) keys) (hsub : fewer.Sublist keys)
    (hunused : ∀ key, uses key entry = false) :
    ByUse (fun key => lastUse (uses key) (past ++ [entry])) fewer := by
  refine (h.sublist hsub).congr fun other _ => ?_
  rw [lastUse_snoc, hunused other]
  rfl

theorem byUse_of_used {keys fewer : List String}
    (h : ByUse (fun key => lastUse (uses key) past) keys) (hsub : fewer.Sublist keys)
    (hnew : key ∉ fewer) (hused : ∀ other, uses other entry = decide (key = other)) :
    ByUse (fun key => lastUse (uses key) (past ++ [entry])) (key :: fewer) := by
  refine (h.sublist hsub).cons hnew (fun other hne => ?_) fun other hmem => ?_
  · rw [lastUse_snoc, hused other, decide_eq_false (Ne.symm hne)]
    rfl
  · rw [lastUse_snoc, hused key, decide_eq_true rfl, if_pos rfl]
    exact Nat.lt_succ_of_le (lastUse_le_length _ _)

section Sound

variable (h : state.Sound ttl maxSize past)

include h

theorem Sound.inForce_of_lookup {item : CacheEntry V}
    (hitem : state.cache.items.lookup key = some item) :
    ∃ stored, inForce (setsKey key) (drops ttl key) past = some (item.value, stored) ∧
      item.expiresAt = deadline ttl stored := by
  have hcontents := h.contents key
  rw [hitem, Option.map_some] at hcontents
  obtain ⟨⟨value, stored⟩, hforce, hsame⟩ := Option.map_eq_some_iff.mp hcontents.symm
  obtain ⟨hvalue, hexpires⟩ := Prod.mk.inj hsame
  exact ⟨stored, hvalue ▸ hforce, hexpires.symm⟩

theorem Sound.inForce_of_none (hitem : state.cache.items.lookup key = none) :
    inForce (setsKey key) (drops ttl key) past = none := by
  have hcontents := h.contents key
  rw [hitem, Option.map_none] at hcontents
  exact Option.map_eq_none_iff.mp hcontents.symm

theorem Sound.expired_eq (now : Time) {item : CacheEntry V} {stored : Time}
    (hexpires : item.expiresAt = deadline ttl stored) :
    state.cache.expired now item = decide (Expired ttl stored now) := by
  unfold expired
  refine decide_eq_decide.mpr ?_
  rw [h.ttl_eq, hexpires]
  refine and_congr_right fun hpos => ?_
  rw [deadline, if_pos hpos]

section

variable (hclock : state.clock ≤ now)
include hclock

theorem Sound.times_snoc (htime : entry.1.time = now) :
    ∀ entry' ∈ past ++ [entry], entry'.1.time ≤ now := by
  intro entry' hmem
  rcases List.mem_append.mp hmem with hmem | hmem
  · exact (h.times entry' hmem).trans hclock
  · rw [List.mem_singleton.mp hmem, htime]

theorem Sound.of_removed {cache : Cache V} (htime : entry.1.time = now) (hlinked : cache.Linked)
    (httl : cache.ttl = state.cache.ttl) (hmaxSize : cache.maxSize = state.cache.maxSize)
    (hkeys : cache.keys.Sublist state.cache.keys) (hunused : ∀ key, uses key entry = false)
    (hsets : ∀ key, setsKey key entry = none)
    (hlookup : ∀ key, (cache.items.lookup key = state.cache.items.lookup key ∧
        ∀ stored, inForce (setsKey key) (drops ttl key) past = some stored →
          drops ttl key entry stored = false) ∨
      (cache.items.lookup key = none ∧
        ∀ stored, inForce (setsKey key) (drops ttl key) past = some stored →
          drops ttl key entry stored = true)) :
    Sound ttl maxSize (past ++ [entry]) ⟨cache, now⟩ where
  linked := hlinked
  ttl_eq := httl.trans h.ttl_eq
  maxSize_eq := hmaxSize.trans h.maxSize_eq
  bounded hpos := (Int.ofNat_le.mpr hkeys.length_le).trans (h.bounded hpos)
  times := h.times_snoc hclock htime
  recency := byUse_of_unused h.recency hkeys hunused
  contents key := by
    rcases hlookup key with ⟨hsame, hkept⟩ | ⟨hnone, hdropped⟩
    · rw [hsame, inForce_of_kept (hsets key) hkept]
      exact h.contents key
    · rw [hnone, inForce_of_dropped (hsets key) hdropped]
      rfl

theorem Sound.get (key : String) :
    Sound ttl maxSize (past ++ [(⟨.get key, now⟩, .got (state.cache.get now key).1)])
      ⟨(state.cache.get now key).2, now⟩ := by
  cases hitem : state.cache.items.lookup key with
  | none =>
    rw [get_of_none hitem]
    refine h.of_removed hclock rfl h.linked rfl rfl (List.Sublist.refl _) (fun _ => rfl)
      (fun _ => rfl) fun other => .inl ⟨rfl, fun stored hforce => decide_eq_false ?_⟩
    rintro ⟨rfl, -⟩
    rw [h.inForce_of_none hitem] at hforce
    cases hforce
  | some item =>
    obtain ⟨stored, hforce, hexpires⟩ := h.inForce_of_lookup hitem
    have hexpired := h.expired_eq now hexpires
    by_cases hover : Expired ttl stored now
    · rw [h.linked.get_of_expired hitem (hexpired.trans (decide_eq_true hover))]
      refine h.of_removed hclock rfl (h.linked.without key) rfl rfl ?_ (fun _ => rfl)
        (fun _ => rfl) fun other => ?_
      · rw [keys_without]
        exact List.filter_sublist
      · rw [lookup_without]
        by_cases heq : other = key
        · subst heq
          refine .inr ⟨if_pos rfl, fun found hfound => decide_eq_true ⟨rfl, ?_⟩⟩
          rw [hforce] at hfound
          cases hfound
          exact hover
        · exact .inl ⟨if_neg heq, fun found _ => decide_eq_false fun hsame => heq hsame.1.symm⟩
    · rw [h.linked.get_of_current hitem (hexpired.trans (decide_eq_false hover))]
      have hlinked := h.linked.touch_of_lookup hitem rfl rfl
      have hkey := h.linked.key_eq hitem
      have hkeys := keys_touch state.cache item state.cache.fresh
      rw [hkey] at hkeys
      have hmem : key ∈ state.cache.keys :=
        h.linked.mem_items_iff.mp (Finmap.mem_of_lookup_eq_some hitem)
      refine ⟨hlinked, h.ttl_eq, h.maxSize_eq, fun hpos => ?_, h.times_snoc hclock rfl, ?_,
        fun other => ?_⟩
      · rw [hkeys, List.length_cons, length_filter_ne h.linked.keys_nodup hmem]
        exact h.bounded hpos
      · rw [hkeys]
        refine byUse_of_used h.recency List.filter_sublist (fun hin => ?_) fun _ => rfl
        exact of_decide_eq_true (List.mem_filter.mp hin).2 rfl
      · have hsame : (state.cache.touch item state.cache.fresh).items.lookup other =
            state.cache.items.lookup other := by
          rw [lookup_touch, hkey]
          split_ifs with heq
          · rw [heq, hitem]
          · rfl
        have hkept : inForce (setsKey other) (drops ttl other)
            (past ++ [(⟨.get key, now⟩, .got (some item.value))]) =
            inForce (setsKey other) (drops ttl other) past := by
          refine inForce_of_kept rfl fun found hfound => decide_eq_false ?_
          rintro ⟨rfl, hnow⟩
          rw [hforce] at hfound
          cases hfound
          exact hover hnow
        rw [hsame, hkept]
        exact h.contents other

theorem Sound.delete (key : String) :
    Sound ttl maxSize (past ++ [(⟨.delete key, now⟩, .done)]) ⟨state.cache.delete key, now⟩ := by
  rw [h.linked.delete_eq]
  refine h.of_removed hclock rfl (h.linked.without key) rfl rfl ?_ (fun _ => rfl)
    (fun _ => rfl) fun other => ?_
  · rw [keys_without]
    exact List.filter_sublist
  · rw [lookup_without]
    by_cases heq : other = key
    · exact .inr ⟨if_pos heq, fun _ _ => decide_eq_true heq.symm⟩
    · exact .inl ⟨if_neg heq, fun _ _ => decide_eq_false (Ne.symm heq)⟩

theorem Sound.clear :
    Sound ttl maxSize (past ++ [(⟨.clear, now⟩, .done)]) ⟨state.cache.clear, now⟩ :=
  h.of_removed hclock rfl (linked_empty _ _ _) rfl rfl (List.nil_sublist _) (fun _ => rfl)
    (fun _ => rfl) fun _ => .inr ⟨Finmap.lookup_empty _, fun _ _ => rfl⟩

theorem Sound.cleanup {scan : List String} (hscan : ∀ key, key ∈ scan ↔ key ∈ state.cache.items) :
    Sound ttl maxSize (past ++ [(⟨.cleanup, now⟩, .done)]) ⟨state.cache.cleanup now scan, now⟩ := by
  have hswept := h.linked.cleanup now scan
  refine h.of_removed hclock rfl hswept.linked hswept.ttl hswept.maxSize hswept.keys (fun _ => rfl)
    (fun _ => rfl) fun other => ?_
  have hlookup := hswept.lookup other
  cases hitem : state.cache.items.lookup other with
  | none =>
    rw [hitem, Option.filter_none, ite_self] at hlookup
    refine .inl ⟨hlookup, fun stored hforce => ?_⟩
    rw [h.inForce_of_none hitem] at hforce
    cases hforce
  | some item =>
    obtain ⟨stored, hforce, hexpires⟩ := h.inForce_of_lookup hitem
    rw [if_pos ((hscan other).mpr (Finmap.mem_of_lookup_eq_some hitem)), hitem, Option.filter_some,
      h.expired_eq now hexpires] at hlookup
    by_cases hover : Expired ttl stored now
    · rw [decide_eq_true hover] at hlookup
      refine .inr ⟨hlookup, fun found hfound => ?_⟩
      rw [hforce] at hfound
      cases hfound
      exact decide_eq_true hover
    · rw [decide_eq_false hover] at hlookup
      refine .inl ⟨hlookup, fun found hfound => ?_⟩
      rw [hforce] at hfound
      cases hfound
      exact decide_eq_false hover

theorem Sound.has (key : String) :
    Sound ttl maxSize (past ++ [(⟨.has key, now⟩, .found (state.cache.has now key))])
      ⟨state.cache, now⟩ :=
  h.of_removed hclock rfl h.linked rfl rfl (List.Sublist.refl _) (fun _ => rfl) (fun _ => rfl)
    fun _ => .inl ⟨rfl, fun _ _ => rfl⟩

end

/-- At capacity, a new key costs the one at the back of the list. -/
theorem Sound.evicted_eq {key : String} (hkey : key ∉ state.cache.items) (hpos : 0 < maxSize)
    (hfull : maxSize ≤ state.cache.size) :
    ∃ victim, state.cache.evicted key = some victim ∧ state.cache.keys.getLast? = some victim := by
  have hlength : state.cache.keys ≠ [] := by
    intro hnil
    rw [h.linked.size_eq, hnil] at hfull
    exact absurd (hpos.trans_le hfull) (lt_irrefl 0)
  refine ⟨state.cache.keys.getLast hlength, ?_, List.getLast?_eq_some_getLast hlength⟩
  unfold evicted
  rw [if_pos ⟨hkey, by rw [h.maxSize_eq]; exact ⟨hpos, hfull⟩⟩, ← List.getLast?_map]
  exact List.getLast?_eq_some_getLast hlength

theorem Sound.length_room_lt {key : String} (hkey : key ∉ state.cache.items) (hpos : 0 < maxSize) :
    ((state.cache.room key).keys.length : Int) < maxSize := by
  unfold Cache.room
  by_cases hfull : maxSize ≤ state.cache.size
  · obtain ⟨victim, hevicted, hlast⟩ := h.evicted_eq hkey hpos hfull
    have hmem : victim ∈ state.cache.keys := List.mem_of_getLast? hlast
    have hlength := length_filter_ne h.linked.keys_nodup hmem
    have hbound := h.bounded hpos
    rw [hevicted]
    dsimp only
    rw [keys_without]
    omega
  · have hnone : state.cache.evicted key = none := by
      unfold evicted
      rw [h.maxSize_eq]
      exact if_neg fun hall => hfull hall.2.2
    rw [hnone, ← h.linked.size_eq]
    exact not_le.mp hfull

theorem Sound.set (hclock : state.clock ≤ now) (key : String) (value : V)
    (hexpires : state.cache.expiresAt now = deadline ttl now) :
    Sound ttl maxSize (past ++ [(⟨.set key value, now⟩, .evicted (state.cache.evicted key))])
      ⟨state.cache.set now key value, now⟩ := by
  obtain ⟨fresh, hset, hlinked⟩ := h.linked.set_eq now key value
  have hroom : (state.cache.room key).keys.Sublist state.cache.keys := by
    unfold Cache.room
    cases state.cache.evicted key with
    | none => exact List.Sublist.refl _
    | some victim =>
      dsimp only
      rw [keys_without]
      exact List.filter_sublist
  have hkeys : (state.cache.set now key value).keys =
      key :: (state.cache.room key).keys.filter fun other => other ≠ key := by
    rw [hset, keys_touch]
    rfl
  refine ⟨hlinked, (ttl_set h.linked now key value).trans h.ttl_eq, ?_, fun hpos => ?_,
    h.times_snoc hclock rfl, ?_, fun other => ?_⟩
  · exact (maxSize_set h.linked now key value).trans h.maxSize_eq
  · rw [hkeys, List.length_cons]
    by_cases hkey : key ∈ state.cache.items
    · have hsame : state.cache.room key = state.cache := by
        unfold Cache.room
        rw [evicted_of_mem hkey]
      rw [hsame, length_filter_ne h.linked.keys_nodup (h.linked.mem_items_iff.mp hkey)]
      exact h.bounded hpos
    · have hlength := h.length_room_lt hkey hpos
      have hfilter := List.length_filter_le (fun other => decide (other ≠ key))
        (state.cache.room key).keys
      omega
  · rw [hkeys]
    refine byUse_of_used h.recency (List.filter_sublist.trans hroom) (fun hin => ?_) fun _ => rfl
    exact of_decide_eq_true (List.mem_filter.mp hin).2 rfl
  · rw [lookup_set h.linked]
    by_cases heq : other = key
    · subst heq
      have hsets : setsKey other ((⟨.set other value, now⟩ : CacheCall V),
          (.evicted (state.cache.evicted other) : CacheReply V)) = some (value, now) := if_pos rfl
      rw [if_pos rfl, inForce_snoc, hsets, Option.some_or, Option.map_some, Option.map_some,
        ← hexpires]
      rfl
    · have hsets : setsKey other ((⟨.set key value, now⟩ : CacheCall V),
          (.evicted (state.cache.evicted key) : CacheReply V)) = none := if_neg (Ne.symm heq)
      rw [if_neg heq]
      by_cases hevicted : state.cache.evicted key = some other
      · rw [if_pos hevicted, inForce_of_dropped hsets fun _ _ => decide_eq_true hevicted]
        rfl
      · rw [if_neg hevicted, inForce_of_kept hsets fun _ _ => decide_eq_false hevicted]
        exact h.contents other

end Sound

theorem expiresAt_eq {cache : Cache V} (httl : cache.ttl = ttl) (hrange : ttl * second ≤ maxInt64)
    (now : Time) : cache.expiresAt now = deadline ttl now := by
  unfold expiresAt deadline
  rw [httl]
  split_ifs with hpos
  · rw [int64_of_range _ hrange]
    have hsecond : (0 : Int) ≤ second := by decide
    have hproduct : 0 ≤ ttl * second := Int.mul_nonneg hpos.le hsecond
    exact le_trans (by decide) hproduct
  · rfl

theorem sound_of_reached (hrange : ttl * second ≤ maxInt64) (h : Reached ttl maxSize past state) :
    state.Sound ttl maxSize past := by
  induction h with
  | nil =>
    exact ⟨linked_empty ttl maxSize 0, rfl, rfl, le_of_lt, (fun _ hmem => nomatch hmem), List.Pairwise.nil,
      fun _ => rfl⟩
  | snoc _ hstep ih =>
    cases hstep with
    | get key hclock => exact ih.get hclock key
    | set key value hclock =>
      exact ih.set hclock key value (expiresAt_eq ih.ttl_eq hrange _)
    | delete key hclock => exact ih.delete hclock key
    | clear hclock => exact ih.clear hclock
    | cleanup hclock hscan _ => exact ih.cleanup hclock hscan
    | has key hclock => exact ih.has hclock key

theorem kept_iff_not_ends {value : V} {stored : Time} (htime : entry.1.time ≤ now)
    (hcurrent : ¬ Expired ttl stored now) :
    setsKey key entry = none ∧ drops ttl key entry (value, stored) = false ↔
      ¬ Ends ttl key stored entry := by
  obtain ⟨⟨op, time⟩, reply⟩ := entry
  cases op with
  | get looked => simp [setsKey, drops, Ends]
  | set other written => simp [setsKey, drops, Ends]
  | delete deleted => simp [setsKey, drops, Ends]
  | clear => simp [setsKey, drops, Ends]
  | cleanup => simp [setsKey, drops, Ends]
  | has looked =>
    simp only [setsKey, drops, Ends, true_and, true_iff]
    exact fun hends => hcurrent (Expired.mono hends.2 htime)

theorem setsKey_eq_some_iff {value : V} {stored : Time} :
    setsKey key entry = some (value, stored) ↔ ∃ reply, entry = (⟨.set key value, stored⟩, reply) := by
  obtain ⟨⟨op, time⟩, reply⟩ := entry
  cases op with
  | set other written => simp [setsKey, and_assoc]
  | _ => simp [setsKey]

section

variable (h : state.Sound ttl maxSize past)
include h

theorem Sound.get_fst_iff {value : V} :
    (state.cache.get now key).1 = some value ↔
      ∃ stored, inForce (setsKey key) (drops ttl key) past = some (value, stored) ∧
        ¬ Expired ttl stored now := by
  cases hitem : state.cache.items.lookup key with
  | none =>
    rw [get_of_none hitem, h.inForce_of_none hitem]
    simp
  | some item =>
    obtain ⟨stored, hforce, hexpires⟩ := h.inForce_of_lookup hitem
    have hexpired := h.expired_eq now hexpires
    by_cases hover : Expired ttl stored now
    · rw [h.linked.get_of_expired hitem (hexpired.trans (decide_eq_true hover)), hforce]
      simp [hover]
    · rw [h.linked.get_of_current hitem (hexpired.trans (decide_eq_false hover)), hforce]
      simp [hover]

theorem Sound.hit (value : V) (hclock : state.clock ≤ now) :
    (state.cache.get now key).1 = some value ↔ Stored ttl past key value now := by
  rw [h.get_fst_iff]
  constructor
  · rintro ⟨stored, hforce, hcurrent⟩
    obtain ⟨before, entry, since, hpast, hentry, hsince⟩ := inForce_eq_some_iff.mp hforce
    obtain ⟨reply, rfl⟩ := setsKey_eq_some_iff.mp hentry
    refine ⟨before, stored, reply, since, hpast, fun later hmem => ?_, hcurrent⟩
    have hin : later ∈ past := hpast ▸ List.mem_append_right _ (List.mem_cons_of_mem _ hmem)
    exact (kept_iff_not_ends ((h.times later hin).trans hclock) hcurrent).mp (hsince later hmem)
  · rintro ⟨before, stored, reply, since, hpast, hsince, hcurrent⟩
    refine ⟨stored, inForce_eq_some_iff.mpr ⟨before, _, since, hpast,
      setsKey_eq_some_iff.mpr ⟨reply, rfl⟩, fun later hmem => ?_⟩, hcurrent⟩
    have hin : later ∈ past := hpast ▸ List.mem_append_right _ (List.mem_cons_of_mem _ hmem)
    exact (kept_iff_not_ends ((h.times later hin).trans hclock) hcurrent).mpr (hsince later hmem)

theorem Sound.evicts (hkey : key ∉ state.cache.items) (hpos : 0 < maxSize)
    (hfull : maxSize ≤ state.cache.size) :
    ∃ victim, state.cache.evicted key = some victim ∧ victim ∈ state.cache.items ∧
      (∀ other ∈ state.cache.items, other ≠ victim →
        lastUse (uses victim) past < lastUse (uses other) past) ∧
      ∀ now value other, other ∈ (state.cache.set now key value).items ↔
        other = key ∨ other ∈ state.cache.items ∧ other ≠ victim := by
  obtain ⟨victim, hevicted, hlast⟩ := h.evicted_eq hkey hpos hfull
  refine ⟨victim, hevicted, h.linked.mem_items_iff.mpr (List.mem_of_getLast? hlast),
    fun other hmem hne => ?_, fun now value other => ?_⟩
  · exact h.recency.getLast?_lt hlast other (h.linked.mem_items_iff.mp hmem) hne
  · rw [← Finmap.lookup_isSome, lookup_set h.linked, hevicted]
    by_cases heq : other = key
    · simp [heq]
    · by_cases hvictim : victim = other
      · simp [heq, hvictim]
      · simp [heq, hvictim, Finmap.lookup_isSome, Ne.symm hvictim]

theorem Sound.correct : state.Correct ttl maxSize past where
  coincide _ := h.linked.mem_items_iff
  once := h.linked.keys_nodup
  bounded hpos := by
    rw [h.linked.size_eq]
    exact h.bounded hpos
  recency := h.recency
  evicts _ := h.evicts
  hit _ value _ := h.hit value

end

end CacheState

end Run

/-- A value is stored at the time 0, and a deadline that has wrapped around lets it go at once or
later, but before its time. -/
theorem exists_lost {V : Type} {ttl : Int} (hrange : maxInt64 < ttl * second) (maxSize : Int)
    (key : String) (value : V) :
    ∃ now, ¬ Expired ttl 0 now ∧
      (((newCache ttl maxSize).set 0 key value).get now key).1 = none := by
  have hproduct : 0 < ttl * second := lt_trans (by decide) hrange
  have hpos : 0 < ttl := Int.pos_of_mul_pos_left hproduct (by decide)
  have hwrapped : int64 (ttl * second) < ttl * second := (int64_le _).trans_lt hrange
  have hlinked : (newCache ttl maxSize : Cache V).Linked := linked_empty ttl maxSize 0
  have hitem : ((newCache ttl maxSize).set 0 key value).items.lookup key =
      some ((newCache ttl maxSize).written 0 key value) := by
    rw [lookup_set hlinked, if_pos rfl]
  have hexpires : ((newCache ttl maxSize).written 0 key value).expiresAt =
      ((0 : Time) : Int) + int64 (ttl * second) := if_pos hpos
  refine ⟨(int64 (ttl * second) + 1).toNat, fun hexpired => ?_, ?_⟩
  · have hlate := hexpired.2
    omega
  · have hexpired : ((newCache ttl maxSize).set 0 key value).expired
        (int64 (ttl * second) + 1).toNat ((newCache ttl maxSize).written 0 key value) = true := by
      refine decide_eq_true ⟨?_, ?_⟩
      · rw [ttl_set hlinked]
        exact hpos
      · rw [hexpires]
        omega
    unfold Cache.get
    rw [hitem]
    dsimp only
    rw [if_pos hexpired]

/-- The cache is an LRU map with expiry exactly if its expiry fits a duration. -/
theorem cache_correct_iff {V : Type} [Inhabited V] (ttl maxSize : Int) :
    (∀ (past : List (CacheCall V × CacheReply V)) (state : CacheState V),
      CacheState.Reached ttl maxSize past state → state.Correct ttl maxSize past) ↔
      ttl * second ≤ maxInt64 := by
  constructor
  · intro h
    by_contra hrange
    obtain ⟨now, hcurrent, hlost⟩ := exists_lost (not_le.mp hrange) maxSize "key" (default : V)
    have hreached : CacheState.Reached ttl maxSize _ _ :=
      History.nil.snoc (CacheState.Step.set "key" (default : V) le_rfl)
    have hhit := ((h _ _ hreached).hit "key" default now (Nat.zero_le _)).mpr
      ⟨[], 0, _, [], rfl, (fun _ hmem => nomatch hmem), hcurrent⟩
    rw [hlost] at hhit
    cases hhit
  · intro hrange past state hreached
    exact (CacheState.sound_of_reached hrange hreached).correct

/-- `9223372037` seconds are more nanoseconds than a duration holds. -/
theorem cache_forgets_at_once :
    CacheState.Reached 9223372037 10 [(⟨.set "key" 1, 0⟩, .evicted none)]
      ⟨(newCache 9223372037 10).set 0 "key" 1, 0⟩ ∧
    Stored 9223372037 [((⟨.set "key" 1, 0⟩ : CacheCall Nat), (.evicted none : CacheReply Nat))]
      "key" 1 0 ∧
    (((newCache 9223372037 10).set 0 "key" 1).get 0 "key").1 = none := by
  refine ⟨History.nil.snoc (CacheState.Step.set "key" 1 le_rfl),
    ⟨[], 0, _, [], rfl, (fun _ hmem => nomatch hmem), by decide⟩, by decide⟩

end FsServer
