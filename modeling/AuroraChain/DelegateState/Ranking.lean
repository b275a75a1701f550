import AuroraChain.DelegateState.DelegateDB
/-!
# The delegate ranking

`GetDelegates` lists the live objects that are neither cancelled nor suicided, sorted by
`CandidateSlice.Less`. Two facts make that list a function of the delegates alone. After `New`
the live map mirrors the trie, since `loadDelegateToCache` loads every record, and registering,
voting and cancelling only add live objects or change their records: none sets `deleted` or
`suicided` (`Loaded`). Under that invariant a lookup never loads, `Exist` is "live and not
cancelled", and the unsorted list holds exactly the addresses `Exist` accepts. And `Less` orders
any two candidates of different addresses, so only one arrangement of the list is sorted,
whichever order the map is walked in and whichever sort arranges it.
-/

namespace AuroraChain.DelegateState

namespace DelegateDB

/-- No live object is deleted or suicided. -/
def Clean (d : DelegateDB) : Prop :=
  ∀ a o, d.delegateObjects.get? a = some o → o.deleted = false ∧ o.suicided = false

/-- What `New` establishes and the delegate operations keep: every record of the trie is live,
and no live object is deleted or suicided. -/
structure Loaded (d : DelegateDB) : Prop where
  trie_live : ∀ a, (d.trie.get? a).isSome → (d.delegateObjects.get? a).isSome
  clean : d.Clean

theorem Clean.setStateObject {d : DelegateDB} {o : DelegateObject} (h : d.Clean)
    (hdeleted : o.deleted = false) (hsuicided : o.suicided = false) :
    (d.setStateObject o).Clean := by
  intro a o' ho
  rw [setStateObject_delegateObjects, SortedMap.get?_insert] at ho
  split_ifs at ho
  · cases ho
    exact ⟨hdeleted, hsuicided⟩
  · exact h a o' ho

theorem Loaded.of_maps {d d' : DelegateDB} (h : d.Loaded) (htrie : d'.trie = d.trie)
    (hlive : d'.delegateObjects = d.delegateObjects) : d'.Loaded where
  trie_live := by rw [htrie, hlive]; exact h.trie_live
  clean := by unfold Clean; rw [hlive]; exact h.clean

theorem Loaded.setStateObject {d : DelegateDB} {o : DelegateObject} (h : d.Loaded)
    (hdeleted : o.deleted = false) (hsuicided : o.suicided = false) :
    (d.setStateObject o).Loaded where
  trie_live a ha := by
    rw [setStateObject_trie] at ha
    rw [setStateObject_delegateObjects, SortedMap.get?_insert]
    split_ifs
    · rfl
    · exact h.trie_live a ha
  clean := h.clean.setStateObject hdeleted hsuicided

theorem Loaded.markStateObjectDirty {d : DelegateDB} (h : d.Loaded) (addr : Address) :
    (d.markStateObjectDirty addr).Loaded :=
  h.of_maps rfl rfl

theorem Loaded.appendJournal {d : DelegateDB} (h : d.Loaded) (e : JournalEntry) :
    (d.appendJournal e).Loaded :=
  h.of_maps rfl rfl

theorem getStateObjectContainDelete_of_loaded {d : DelegateDB} (h : d.Loaded) (addr : Address) :
    d.getStateObjectContainDelete addr = (d.delegateObjects.get? addr, d) := by
  unfold getStateObjectContainDelete
  cases hlive : d.delegateObjects.get? addr with
  | some obj => rfl
  | none =>
      have htrie : d.trie.get? addr = none := by
        cases ht : d.trie.get? addr with
        | none => rfl
        | some _ =>
            have := h.trie_live addr (by rw [ht]; rfl)
            rw [hlive] at this
            cases this
      rw [htrie]

theorem getStateObject_of_loaded {d : DelegateDB} (h : d.Loaded) (addr : Address) :
    d.getStateObject addr = ((d.delegateObjects.get? addr).filter (!·.data.delete), d) := by
  unfold getStateObject
  cases hlive : d.delegateObjects.get? addr with
  | some obj =>
      have hdeleted := (h.clean addr obj hlive).1
      cases hdelete : obj.data.delete <;> simp [hdeleted, hdelete, Option.filter]
  | none =>
      rw [getStateObjectContainDelete_of_loaded h, hlive]
      rfl

theorem exist_of_loaded {d : DelegateDB} (h : d.Loaded) (addr : Address) :
    (d.exist addr).1 = true ↔ ∃ o, d.delegateObjects.get? addr = some o ∧ o.data.delete = false := by
  simp only [exist, getStateObject_of_loaded h, Option.isSome_filter]
  cases d.delegateObjects.get? addr <;> simp

end DelegateDB

namespace DelegateObject

/-- An object method's frame: the object keeps its `deleted` and `suicided` flags, and the
database keeps its trie and live map. -/
structure Frame (o : DelegateObject) (d : DelegateDB) (r : DelegateObject × DelegateDB) : Prop where
  deleted : r.1.deleted = o.deleted
  suicided : r.1.suicided = o.suicided
  trie : r.2.trie = d.trie
  live : r.2.delegateObjects = d.delegateObjects

theorem tryMarkDirty_frame (o : DelegateObject) (d : DelegateDB) : Frame o d (o.tryMarkDirty d) := by
  unfold tryMarkDirty
  split <;> exact ⟨rfl, rfl, rfl, rfl⟩

theorem setVote_frame (o : DelegateObject) (amount : Int) (d : DelegateDB) :
    Frame o d (o.setVote amount d) := by
  have h := tryMarkDirty_frame { o with data.vote := amount } d
  exact ⟨h.deleted, h.suicided, h.trie, h.live⟩

theorem touch_frame (o : DelegateObject) (d : DelegateDB) : Frame o d (o.touch d) := by
  have h := tryMarkDirty_frame o (d.appendJournal (.touchChange o.address o.touched (!o.onDirty)))
  exact ⟨h.deleted, h.suicided, h.trie, h.live⟩

theorem addVote_frame (o : DelegateObject) (amount : Int) (d : DelegateDB) :
    Frame o d (o.addVote amount d) := by
  unfold addVote
  split_ifs
  · exact touch_frame o d
  · exact ⟨rfl, rfl, rfl, rfl⟩
  · exact setVote_frame o _ d

theorem subVote_frame (o : DelegateObject) (amount : Int) (d : DelegateDB) :
    Frame o d (o.subVote amount d) := by
  unfold subVote
  split_ifs
  · exact ⟨rfl, rfl, rfl, rfl⟩
  · dsimp only
    split_ifs
    · exact setVote_frame o 0 d
    · exact setVote_frame o _ d

/-- Writing back the result of an object method on a clean live object keeps the invariant. -/
theorem Frame.setStateObject_loaded {o : DelegateObject} {d : DelegateDB}
    {r : DelegateObject × DelegateDB} (hf : Frame o d r) (h : d.Loaded)
    (hdeleted : o.deleted = false) (hsuicided : o.suicided = false) :
    (r.2.setStateObject r.1).Loaded :=
  (h.of_maps hf.trie hf.live).setStateObject (hf.deleted.trans hdeleted) (hf.suicided.trans hsuicided)

end DelegateObject

namespace DelegateDB

theorem getStateObject_reads_live {d : DelegateDB} (h : d.Loaded) (addr : Address) :
    ∃ x, d.getStateObject addr = (x, d) ∧ ∀ o ∈ x, d.delegateObjects.get? addr = some o := by
  refine ⟨_, getStateObject_of_loaded h addr, fun o ho => ?_⟩
  exact Option.eq_some_of_filter_eq_some ho

theorem getStateObjectContainDelete_reads_live {d : DelegateDB} (h : d.Loaded) (addr : Address) :
    ∃ x, d.getStateObjectContainDelete addr = (x, d) ∧
      ∀ o ∈ x, d.delegateObjects.get? addr = some o :=
  ⟨_, getStateObjectContainDelete_of_loaded h addr, fun _ ho => ho⟩

/-- `AddVote`, `SubVote` and `SetVote` keep the invariant: the lookup reads the live map, and the
object method changes neither the flags nor the maps. -/
theorem Loaded.changeVote {lookup : DelegateDB → Address → Option DelegateObject × DelegateDB}
    {change : DelegateObject → Int → DelegateDB → DelegateObject × DelegateDB}
    (hlookup : ∀ d addr, d.Loaded →
      ∃ x, lookup d addr = (x, d) ∧ ∀ o ∈ x, d.delegateObjects.get? addr = some o)
    (hchange : ∀ o amount d, DelegateObject.Frame o d (change o amount d))
    {d : DelegateDB} (h : d.Loaded) (addr : Address) (amount : Int) :
    (changeVote lookup change d addr amount).Loaded := by
  obtain ⟨x, hx, hlive⟩ := hlookup d addr h
  unfold DelegateDB.changeVote
  rw [hx]
  cases x with
  | none => exact h
  | some obj =>
      obtain ⟨hdeleted, hsuicided⟩ := h.clean addr obj (hlive obj rfl)
      rcases hc : change obj amount d with ⟨obj₁, d₁⟩
      have f₁ := hchange obj amount d
      rw [hc] at f₁
      have h₁ : d₁.Loaded := h.of_maps f₁.trie f₁.live
      dsimp only
      rw [hc]
      exact (DelegateObject.tryMarkDirty_frame obj₁ d₁).setStateObject_loaded h₁
        (f₁.deleted.trans hdeleted) (f₁.suicided.trans hsuicided)

theorem Loaded.addVote {d : DelegateDB} (h : d.Loaded) (addr : Address) (amount : Int) :
    (d.addVote addr amount).Loaded :=
  Loaded.changeVote (fun _ _ h => getStateObject_reads_live h _) DelegateObject.addVote_frame h addr
    amount

theorem Loaded.subVote {d : DelegateDB} (h : d.Loaded) (addr : Address) (amount : Int) :
    (d.subVote addr amount).Loaded :=
  Loaded.changeVote (fun _ _ h => getStateObjectContainDelete_reads_live h _)
    DelegateObject.subVote_frame h addr amount

theorem Loaded.setVote {d : DelegateDB} (h : d.Loaded) (addr : Address) (amount : Int) :
    (d.setVote addr amount).Loaded :=
  Loaded.changeVote (fun _ _ h => getStateObject_reads_live h _) DelegateObject.setVote_frame h addr
    amount

theorem Loaded.createObject {d : DelegateDB} (h : d.Loaded) (addr : Address) (nickname : String)
    (registerTime : Nat) : (d.createObject addr nickname registerTime).2.Loaded := by
  unfold DelegateDB.createObject
  rw [getStateObject_of_loaded h]
  dsimp only [newObject]
  split <;> exact ((h.markStateObjectDirty addr).appendJournal _).setStateObject rfl rfl

theorem Loaded.getOrNewStateObject {d : DelegateDB} (h : d.Loaded) (addr : Address)
    (nickname : String) (registerTime : Nat) :
    (d.getOrNewStateObject addr nickname registerTime).2.Loaded := by
  have hcreate := h.createObject addr nickname registerTime
  unfold DelegateDB.getOrNewStateObject
  rw [getStateObjectContainDelete_of_loaded h]
  cases d.delegateObjects.get? addr with
  | none => exact hcreate
  | some obj =>
      -- a cancelled delegate registers afresh and gets its old votes back
      dsimp only
      split_ifs
      · exact hcreate.addVote addr _
      · exact h

theorem Loaded.suicide {d : DelegateDB} (h : d.Loaded) (addr : Address) : (d.suicide addr).2.Loaded := by
  unfold DelegateDB.suicide
  rw [getStateObject_of_loaded h]
  cases hlive : d.delegateObjects.get? addr with
  | none => exact h
  | some obj =>
      obtain ⟨hdeleted, hsuicided⟩ := h.clean addr obj hlive
      cases hdelete : obj.data.delete
      · simp only [Option.filter, hdelete, Bool.not_false, if_true]
        exact (DelegateObject.tryMarkDirty_frame _ _).setStateObject_loaded (h.appendJournal _)
          hdeleted hsuicided
      · simp only [Option.filter, hdelete, Bool.not_true]
        exact h

theorem exist_snd_of_loaded {d : DelegateDB} (h : d.Loaded) (addr : Address) :
    (d.exist addr).2 = d := by
  simp only [exist, getStateObject_of_loaded h]

theorem subExist_snd_of_loaded {d : DelegateDB} (h : d.Loaded) (addr : Address) :
    (d.subExist addr).2 = d := by
  simp only [subExist, getStateObjectContainDelete_of_loaded h]

theorem getVote_snd_of_loaded {d : DelegateDB} (h : d.Loaded) (addr : Address) :
    (d.getVote addr).2 = d := by
  unfold getVote
  rw [getStateObjectContainDelete_of_loaded h]
  split <;> simp_all

/-- The calls the block processor makes on the delegate database while it applies vote
transactions: registration (`GetOrNewStateObject`), the vote changes, cancellation (`Suicide`),
and the lookups that check them. -/
inductive Op where
  | register (addr : Address) (nickname : String) (registerTime : Nat)
  | addVote (addr : Address) (amount : Int)
  | subVote (addr : Address) (amount : Int)
  | setVote (addr : Address) (amount : Int)
  | cancel (addr : Address)
  | exist (addr : Address)
  | subExist (addr : Address)
  | getVote (addr : Address)

/-- The database a call leaves behind. -/
def Op.apply (d : DelegateDB) : Op → DelegateDB
  | .register addr nickname registerTime => (d.getOrNewStateObject addr nickname registerTime).2
  | .addVote addr amount => d.addVote addr amount
  | .subVote addr amount => d.subVote addr amount
  | .setVote addr amount => d.setVote addr amount
  | .cancel addr => (d.suicide addr).2
  | .exist addr => (d.exist addr).2
  | .subExist addr => (d.subExist addr).2
  | .getVote addr => (d.getVote addr).2

/-- A sequence of calls, in order. -/
def Op.run (d : DelegateDB) (ops : List Op) : DelegateDB := ops.foldl Op.apply d

theorem Loaded.apply {d : DelegateDB} (h : d.Loaded) : ∀ op, (Op.apply d op).Loaded
  | .register addr nickname registerTime => h.getOrNewStateObject addr nickname registerTime
  | .addVote addr amount => h.addVote addr amount
  | .subVote addr amount => h.subVote addr amount
  | .setVote addr amount => h.setVote addr amount
  | .cancel addr => h.suicide addr
  | .exist addr => by rw [Op.apply, exist_snd_of_loaded h]; exact h
  | .subExist addr => by rw [Op.apply, subExist_snd_of_loaded h]; exact h
  | .getVote addr => by rw [Op.apply, getVote_snd_of_loaded h]; exact h

theorem Loaded.run {d : DelegateDB} (h : d.Loaded) (ops : List Op) : (Op.run d ops).Loaded := by
  induction ops generalizing d with
  | nil => exact h
  | cons op ops ih => exact ih (h.apply op)

/-- One step of `loadDelegateToCache`: the trie stays, live objects stay live, the address
becomes live if the trie has it, and only a fresh object is added. -/
theorem getStateObject_load {d : DelegateDB} (hclean : d.Clean) (addr : Address) :
    (d.getStateObject addr).2.trie = d.trie ∧
      (∀ a, (d.delegateObjects.get? a).isSome →
        ((d.getStateObject addr).2.delegateObjects.get? a).isSome) ∧
      ((d.trie.get? addr).isSome → ((d.getStateObject addr).2.delegateObjects.get? addr).isSome) ∧
      (d.getStateObject addr).2.Clean := by
  unfold getStateObject
  cases hlive : d.delegateObjects.get? addr with
  | some obj => exact ⟨rfl, fun _ ha => ha, fun _ => by rw [hlive]; rfl, hclean⟩
  | none =>
      unfold getStateObjectContainDelete
      rw [hlive]
      cases htrie : d.trie.get? addr with
      | none => exact ⟨rfl, fun _ ha => ha, (fun hsome => by cases hsome), hclean⟩
      | some data =>
          refine ⟨rfl, fun a ha => ?_, fun _ => ?_, hclean.setStateObject rfl rfl⟩
          · simp only [newObject, setStateObject_delegateObjects, SortedMap.get?_insert]
            split_ifs
            · rfl
            · exact ha
          · simp [newObject]

/-- `loadDelegateToCache` over a list of addresses: every one the trie holds ends up live. -/
theorem foldl_getStateObject_load (l : List Address) : ∀ d : DelegateDB, d.Clean →
    (l.foldl (fun d addr => (d.getStateObject addr).2) d).trie = d.trie ∧
      (∀ a, (d.delegateObjects.get? a).isSome →
        ((l.foldl (fun d addr => (d.getStateObject addr).2) d).delegateObjects.get? a).isSome) ∧
      (∀ a ∈ l, (d.trie.get? a).isSome →
        ((l.foldl (fun d addr => (d.getStateObject addr).2) d).delegateObjects.get? a).isSome) ∧
      (l.foldl (fun d addr => (d.getStateObject addr).2) d).Clean := by
  induction l with
  | nil => intro d hclean; exact ⟨rfl, fun _ ha => ha, (fun _ hmem => by cases hmem), hclean⟩
  | cons addr rest ih =>
      intro d hclean
      obtain ⟨htrie₁, hmono₁, hload₁, hclean₁⟩ := getStateObject_load hclean addr
      obtain ⟨htrie, hmono, hload, hclean'⟩ := ih _ hclean₁
      refine ⟨htrie.trans htrie₁, fun a ha => hmono a (hmono₁ a ha), fun a hmem ha => ?_, hclean'⟩
      rcases List.mem_cons.mp hmem with rfl | hrest
      · exact hmono a (hload₁ ha)
      · exact hload a hrest (by rw [htrie₁]; exact ha)

theorem new_loaded (trie : SortedMap Address Delegate) : (new trie).Loaded := by
  have hempty : (empty trie).Clean := fun a o h => by simp [empty] at h
  obtain ⟨htrie, -, hload, hclean⟩ := foldl_getStateObject_load trie.keys (empty trie) hempty
  refine ⟨fun a ha => hload a ((SortedMap.mem_keys_iff _ _).mpr ?_) ?_, hclean⟩
  · rw [new, htrie] at ha
    exact ha
  · rw [new, htrie] at ha
    exact ha

/-! ### The ranking -/

/-- Before sorting, `GetDelegates` holds one candidate per live object that is neither cancelled
nor suicided, in the order the map is walked. -/
theorem getDelegates_perm (d : DelegateDB) :
    d.getDelegates.Perm ((d.delegateObjects.entries.filter
      fun e => !(e.2.data.delete || e.2.suicided)).map fun e =>
        ({ address := e.1, vote := bigUint64 e.2.data.vote, nickname := e.2.data.nickname,
           registerTime := e.2.data.registerTime } : Candidate)) := by
  unfold getDelegates
  simp only [SortedMap.foldl_append, List.nil_append]
  split_ifs
  · exact List.perm_insertionSort _ _
  · exact List.Perm.refl _

theorem getDelegates_addresses (d : DelegateDB) :
    (d.getDelegates.map (·.address)).Perm ((d.delegateObjects.entries.filter
      fun e => !(e.2.data.delete || e.2.suicided)).map Prod.fst) := by
  have h := (getDelegates_perm d).map (·.address)
  rwa [List.map_map] at h

theorem getDelegates_nodup (d : DelegateDB) : (d.getDelegates.map (·.address)).Nodup :=
  (getDelegates_addresses d).nodup_iff.mpr
    ((SortedMap.keys_filter_sorted _ _).imp fun hlt => ne_of_lt hlt)

theorem mem_getDelegates (d : DelegateDB) (a : Address) :
    a ∈ d.getDelegates.map (·.address) ↔
      ∃ o, d.delegateObjects.get? a = some o ∧ o.data.delete = false ∧ o.suicided = false := by
  rw [(getDelegates_addresses d).mem_iff]
  simp [SortedMap.mem_entries_iff]

theorem getDelegates_sorted (d : DelegateDB) :
    d.getDelegates.Pairwise fun a b => CandidateSlice.less b a = false := by
  unfold getDelegates
  dsimp only
  split_ifs with hlen
  · have : Std.Total fun a b : Candidate => (!CandidateSlice.less b a) = true := ⟨fun a b => by
      cases h : CandidateSlice.less b a
      · exact Or.inl rfl
      · exact Or.inr (by rw [CandidateSlice.less_asymm h]; rfl)⟩
    have : IsTrans Candidate fun a b => (!CandidateSlice.less b a) = true := ⟨fun a b c hab hbc => by
      simp only [Bool.not_eq_eq_eq_not, Bool.not_true] at *
      exact CandidateSlice.not_less_trans hab hbc⟩
    refine List.Pairwise.imp (fun hab => ?_)
      (List.pairwise_insertionSort (fun a b : Candidate => (!CandidateSlice.less b a) = true) _)
    simpa using hab
  · generalize SortedMap.foldl _ [] d.delegateObjects = l at hlen ⊢
    rcases l with _ | ⟨x, _ | ⟨y, l⟩⟩
    · exact List.Pairwise.nil
    · exact List.pairwise_singleton _ x
    · simp at hlen

theorem getDelegates_strict (d : DelegateDB) :
    d.getDelegates.Pairwise fun a b => CandidateSlice.less a b = true := by
  have hne : d.getDelegates.Pairwise fun a b => a.address ≠ b.address :=
    List.pairwise_map.mp (getDelegates_nodup d)
  refine ((getDelegates_sorted d).and hne).imp ?_
  rintro a b ⟨hba, hab⟩
  rcases CandidateSlice.less_or_less hab with h | h
  · exact h
  · rw [h] at hba
    cases hba

theorem getDelegates_unique (d : DelegateDB) {l : List Candidate} (hperm : l.Perm d.getDelegates)
    (hsorted : l.Pairwise fun a b => CandidateSlice.less b a = false) : l = d.getDelegates := by
  refine List.Perm.eq_of_pairwise ?_ hsorted (getDelegates_sorted d) hperm
  intro a b ha hb hab hba
  have haddr : a.address = b.address := by
    by_contra hne
    rcases CandidateSlice.less_or_less hne with h | h
    · rw [h] at hba
      cases hba
    · rw [h] at hab
      cases hab
  exact List.inj_on_of_nodup_map (getDelegates_nodup d) (hperm.subset ha) hb haddr

/-- The ranking after `New` and any sequence of delegate calls: exactly the delegates `Exist`
accepts, each once, strictly ordered by `CandidateSlice.Less`, and the only arrangement of them
that is sorted, whichever order the live map is walked in and whichever sort is used. -/
theorem getDelegates_ranks_exist (trie : SortedMap Address Delegate) (ops : List Op) :
    let d := Op.run (new trie) ops
    (∀ a, a ∈ d.getDelegates.map (·.address) ↔ (d.exist a).1 = true) ∧
      (d.getDelegates.map (·.address)).Nodup ∧
      d.getDelegates.Pairwise (fun a b => CandidateSlice.less a b = true) ∧
      ∀ l : List Candidate, l.Perm d.getDelegates →
        l.Pairwise (fun a b => CandidateSlice.less b a = false) → l = d.getDelegates := by
  intro d
  have h : d.Loaded := (new_loaded trie).run ops
  refine ⟨fun a => ?_, getDelegates_nodup d, getDelegates_strict d,
    fun l hperm hsorted => getDelegates_unique d hperm hsorted⟩
  rw [mem_getDelegates, exist_of_loaded h]
  constructor
  · rintro ⟨o, ho, hdelete, -⟩
    exact ⟨o, ho, hdelete⟩
  · rintro ⟨o, ho, hdelete⟩
    exact ⟨o, ho, hdelete, (h.clean a o ho).2⟩

end DelegateDB

end AuroraChain.DelegateState
