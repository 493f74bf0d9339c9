import Dao.Core.Devmapper.DeviceSet

/-!
# Device IDs Across Crashes

No two devices of the table have one ID, and every ID of a device is marked, in
every run of a device set in which no start rolls a transaction back whose
device has its metadata file, and no creation fails to remove the file it wrote.

The files carry the argument. Their IDs are distinct, the transaction on disk
is about no file but its own, and this outlives a crash. In memory every device
has its file, and every file has its ID marked.

A rollback removes the file and frees the ID, but the device was loaded into
the table before: the next device may get its ID.

## Theorems

* `run_distinct`: The IDs are distinct and marked.
* `rolled_back_shared`: A rollback, and two devices with one ID.
-/

namespace Dao.Devmapper

open Lib Call Option AMap Except List AList

section Names

/-- A hash whose metadata file is its own and found at a start. -/
def Plain (hash : Str) : Prop :=
  hash = [] ∨ hash ≠ "base".toList ∧ skipped hash = false ∧ '/' ∉ hash

instance (hash : Str) : Decidable (Plain hash) := by
  unfold Plain
  infer_instance

theorem metadataFile_injective {hash hash' : Str} (h : Plain hash) (h' : Plain hash')
    (heq : metadataFile hash = metadataFile hash') : hash = hash' := by
  unfold metadataFile at heq
  by_cases he : hash = [] <;> by_cases he' : hash' = []
  · rw [he, he']
  · rw [if_pos he, if_neg he'] at heq
    exact absurd heq.symm (h'.resolve_left he').1
  · rw [if_neg he, if_pos he'] at heq
    exact absurd heq (h.resolve_left he).1
  · rwa [if_neg he, if_neg he'] at heq

end Names

section Invariant

/-- What outlives a crash. -/
structure DiskOK (d : Disk) : Prop where
  named : ∀ name f, d.files.lookup name = some f →
    f.deviceID ≤ maxDeviceID ∧ ∃ hash, Plain hash ∧ name = metadataFile hash
  distinct : ∀ name name' f f', d.files.lookup name = some f → d.files.lookup name' = some f' →
    f.deviceID = f'.deviceID → name = name'
  pending : ∀ t, d.transaction = some t → ∀ name f, d.files.lookup name = some f →
    f.deviceID = t.deviceID → name = metadataFile t.deviceIDHash

/-- Every device has its file. -/
def Filed (d : Disk) (m : Memory) : Prop :=
  ∀ hash i, m.devices.lookup hash = some i → Plain hash ∧
    ∃ f, d.files.lookup (metadataFile hash) = some f ∧ f.deviceID = i.deviceID

/-- Every file has its ID marked. -/
def Marked (d : Disk) (m : Memory) : Prop :=
  ∀ name f, d.files.lookup name = some f → m.deviceIDMap.test f.deviceID = true

/-- The hash has its file, with the ID. -/
def HasFile (d : Disk) (hash : Str) (id : Nat) : Prop :=
  ∃ f, d.files.lookup (metadataFile hash) = some f ∧ f.deviceID = id

def NoFile (d : Disk) (hash : Str) : Prop := d.files.lookup (metadataFile hash) = none

/-- No file has the ID. -/
def Unused (d : Disk) (id : Nat) : Prop := ∀ name f, d.files.lookup name = some f → f.deviceID ≠ id

/-- No file has the ID but that of the hash. -/
def Own (d : Disk) (hash : Str) (id : Nat) : Prop :=
  ∀ name f, d.files.lookup name = some f → f.deviceID = id → name = metadataFile hash

/-- The invariant. Where it is strict, no removal of a file fails. -/
structure OK (strict : Prop) (w : World) : Prop where
  disk : DiskOK w.disk
  filed : Filed w.disk w.mem
  marked : Marked w.disk w.mem
  removals : strict → ∀ o ∈ w.outcomes .removal, o = .done ∨ o = .crashed

/-- The part of it that outlives a crash. -/
def Durable (w : World) : Prop := DiskOK w.disk

/-- The world with one outcome less. -/
def pop (k : Kind) (w : World) : World :=
  { w with outcomes := Function.update w.outcomes k (w.outcomes k).tail }

theorem ok_pop {strict : Prop} {w : World} (h : OK strict w) (k : Kind) : OK strict (pop k w) := by
  refine { h with removals := fun hs o ho => h.removals hs o ?_ }
  by_cases hk : Kind.removal = k
  · simp only [pop, ← hk, Function.update_self] at ho
    exact mem_of_mem_tail ho
  · simp only [pop, Function.update_of_ne hk] at ho
    exact ho

variable {C : World → Prop} {w : World} {α β : Type} {Q : Except DevError Unit → World → Prop}

theorem ends_act {k : Kind} {e : DevError} {f : World → World}
    (hdone : Q (.ok ()) (f (pop k w))) (hfail : ∀ e, Q (.error e) (pop k w))
    (hcrash : C (pop k w)) :
    Ends C (act k e f) w Q := by
  unfold Ends act
  cases (w.outcomes k).headD .done with
  | done => exact hdone
  | failed => exact hfail e
  | busy => exact hfail .busy
  | taken => exact hfail e
  | crashed => exact hcrash

theorem ends_act_sure {k : Kind} {e : DevError} {f : World → World}
    (hsure : ∀ o ∈ w.outcomes k, o = .done ∨ o = .crashed) (hdone : Q (.ok ()) (f (pop k w)))
    (hcrash : C (pop k w)) : Ends C (act k e f) w Q := by
  have hhead : (w.outcomes k).headD .done = .done ∨ (w.outcomes k).headD .done = .crashed := by
    cases hl : w.outcomes k with
    | nil => exact .inl rfl
    | cons o rest => exact hsure o (by rw [hl]; exact mem_cons_self)
  unfold Ends act
  rcases hhead with h | h
  · rw [h]
    exact hdone
  · rw [h]
    exact hcrash

variable {R : Except DevError β → World → Prop}

theorem ends_update {f : Memory → Memory} {g : Unit → Op β}
    (h : Ends C (g ()) { w with mem := f w.mem } R) : Ends C (update f >>= g) w R := h

theorem ends_look {f : World → α} {g : α → Op β}
    (h : Ends C (g (f w)) w R) : Ends C (look f >>= g) w R := h

end Invariant

section DeviceIDs

theorem nextFree_spec : ∀ (n : Nat) (m : Memory), m.nextDeviceID ≤ maxDeviceID →
    (nextFree n m).2.devices = m.devices ∧ (nextFree n m).2.transaction = m.transaction ∧
      match (nextFree n m).1 with
      | none => (nextFree n m).2.deviceIDMap = m.deviceIDMap
      | some id => id ≤ maxDeviceID ∧ m.deviceIDMap.test id = false ∧
          (nextFree n m).2.deviceIDMap = m.deviceIDMap.set id := by
  intro n
  induction n with
  | zero => exact fun m _ => ⟨rfl, rfl, rfl⟩
  | succ n ih =>
    intro m hm
    unfold nextFree
    by_cases hfree : isDeviceIDFree m.nextDeviceID m = true
    · rw [if_pos hfree]
      rw [isDeviceIDFree, Bool.not_eq_true'] at hfree
      exact ⟨rfl, rfl, hm, hfree, rfl⟩
    · rw [if_neg hfree]
      exact ih (incNextDeviceID m) Nat.and_le_right

/-- The IDs that are marked. -/
def usedIDs (m : Memory) : Finset Nat :=
  (Finset.range (maxDeviceID + 1)).filter fun id => isDeviceIDFree id m = false

theorem incNextDeviceID_eq (m : Memory) :
    (incNextDeviceID m).nextDeviceID = (m.nextDeviceID + 1) % (maxDeviceID + 1) :=
  Nat.and_two_pow_sub_one_eq_mod _ 24

/-- A scan without a result has seen all the IDs it came by, which wrap around. -/
theorem nextFree_none : ∀ (n : Nat) (m : Memory), m.nextDeviceID ≤ maxDeviceID →
    (nextFree n m).1 = none → ∀ j < n,
      isDeviceIDFree ((m.nextDeviceID + j) % (maxDeviceID + 1)) m = false := by
  intro n
  induction n with
  | zero => exact fun _ _ _ j hj => absurd hj (Nat.not_lt_zero j)
  | succ n ih =>
    intro m hm hnone j hj
    unfold nextFree at hnone
    by_cases hfree : isDeviceIDFree m.nextDeviceID m = true
    · simp [hfree] at hnone
    rw [if_neg hfree] at hnone
    cases j with
    | zero =>
      rw [Nat.add_zero, Nat.mod_eq_of_lt (Nat.lt_succ_of_le hm)]
      exact Bool.not_eq_true _ ▸ hfree
    | succ j =>
      have hrest := ih (incNextDeviceID m) Nat.and_le_right hnone j (Nat.lt_of_succ_lt_succ hj)
      rw [incNextDeviceID_eq, Nat.mod_add_mod, Nat.add_assoc, Nat.add_comm 1] at hrest
      exact hrest

/-- `getNextFreeDeviceID` takes an ID that is free and marks nothing else, and fails only if
    there is none. What is marked is a finite set. -/
theorem getNextFreeDeviceID_takes (w : World) :
    (∀ id w', getNextFreeDeviceID w = (.ok id, w') →
      id ≤ maxDeviceID ∧ isDeviceIDFree id w.mem = true ∧
        ∀ k, isDeviceIDFree k w'.mem = (!decide (k = id) && isDeviceIDFree k w.mem)) ∧
    ((∃ e w', getNextFreeDeviceID w = (.error e, w')) ↔
      ∀ id ≤ maxDeviceID, isDeviceIDFree id w.mem = false) ∧
    ∀ id ≤ maxDeviceID, usedIDs (markDeviceIDUsed id w.mem) = insert id (usedIDs w.mem) ∧
      usedIDs (markDeviceIDFree id w.mem) = (usedIDs w.mem).erase id ∧
      (isDeviceIDFree id w.mem = true ↔ id ∉ usedIDs w.mem) := by
  have hspec := nextFree_spec (maxDeviceID + 1) (incNextDeviceID w.mem) Nat.and_le_right
  have hscan := nextFree_none (maxDeviceID + 1) (incNextDeviceID w.mem) Nat.and_le_right
  unfold getNextFreeDeviceID
  generalize nextFree (maxDeviceID + 1) (incNextDeviceID w.mem) = out at hspec hscan ⊢
  rcases out with ⟨r, m⟩
  refine ⟨?_, ?_, fun id hid => ⟨?_, ?_, ?_⟩⟩
  · intro id w' hget
    cases r with
    | none => nomatch hget
    | some id =>
      cases hget
      rcases hspec with ⟨_, _, hbound, hfree, hset⟩
      refine ⟨hbound, by rw [isDeviceIDFree, ← Bool.not_false, ← hfree]; rfl, fun k => ?_⟩
      rw [isDeviceIDFree, hset, Bitmap.test_set, Bool.not_or]
      rfl
  · cases r with
    | none =>
      refine iff_of_true ⟨_, _, rfl⟩ fun id hid => ?_
      -- Every ID is some way from where the scan starts.
      have hseen := hscan rfl
        ((id + (maxDeviceID + 1) - (incNextDeviceID w.mem).nextDeviceID) % (maxDeviceID + 1))
        (Nat.mod_lt _ (Nat.succ_pos _))
      have hstart : (incNextDeviceID w.mem).nextDeviceID ≤ maxDeviceID := Nat.and_le_right
      rw [Nat.add_mod_mod, Nat.add_sub_cancel' (by omega), Nat.add_mod_right,
        Nat.mod_eq_of_lt (Nat.lt_succ_of_le hid)] at hseen
      exact hseen
    | some id =>
      rcases hspec with ⟨_, _, hbound, hfree, _⟩
      refine iff_of_false (by rintro ⟨_, _, h⟩; nomatch h) fun hall => ?_
      have hused := hall id hbound
      simp [isDeviceIDFree] at hused
      exact absurd (hused.symm.trans hfree) Bool.noConfusion
  · ext k
    simp only [usedIDs, Finset.mem_filter, Finset.mem_range, Finset.mem_insert, isDeviceIDFree,
      markDeviceIDUsed, Bitmap.test_set]
    by_cases hk : k = id
    · simp [hk, Nat.lt_succ_of_le hid]
    · simp [hk]
  · ext k
    simp only [usedIDs, Finset.mem_filter, Finset.mem_range, Finset.mem_erase, isDeviceIDFree,
      markDeviceIDFree, Bitmap.test_clear]
    by_cases hk : k = id
    · simp [hk]
    · simp [hk]
  · simp [usedIDs, Nat.lt_succ_of_le hid]

variable {strict : Prop} {w : World}

/-- An ID that is marked and that no file has, for a hash that has no file. -/
structure Fresh (hash : Str) (id : Nat) (w : World) : Prop where
  absent : w.disk.files.lookup (metadataFile hash) = none
  unused : ∀ name f, w.disk.files.lookup name = some f → f.deviceID ≠ id
  bound : id ≤ maxDeviceID
  marked : w.mem.deviceIDMap.test id = true

theorem fresh_of_eq {hash : Str} {id : Nat} {w w' : World} (h : Fresh hash id w)
    (hfiles : w'.disk.files = w.disk.files) (hmap : w'.mem.deviceIDMap = w.mem.deviceIDMap) :
    Fresh hash id w' :=
  ⟨by rw [hfiles]; exact h.absent, fun name f hf => h.unused name f (by rwa [hfiles] at hf),
    h.bound, by rw [hmap]; exact h.marked⟩

theorem ok_getNextFreeDeviceID (h : OK strict w) {hash : Str} (habsent : NoFile w.disk hash) :
    Ends Durable getNextFreeDeviceID w (fun r w' =>
      OK strict w' ∧ w'.disk = w.disk ∧ w'.mem.transaction = w.mem.transaction ∧
        ∀ id, r = .ok id → Fresh hash id w') := by
  have hspec := nextFree_spec (maxDeviceID + 1) (incNextDeviceID w.mem) Nat.and_le_right
  unfold Ends getNextFreeDeviceID
  generalize nextFree (maxDeviceID + 1) (incNextDeviceID w.mem) = out at hspec ⊢
  rcases out with ⟨r, m⟩
  rcases hspec with ⟨hdevices, htransaction, hmap⟩
  simp only at hdevices htransaction hmap
  have hfiled : Filed w.disk m := fun hash i hi => h.filed hash i (by rwa [hdevices] at hi)
  cases r with
  | none =>
    simp only at hmap
    refine ⟨⟨h.disk, hfiled, fun name f hf => ?_, h.removals⟩, rfl, htransaction, nofun⟩
    rw [hmap]
    exact h.marked name f hf
  | some id =>
    simp only at hmap
    rcases hmap with ⟨hbound, hfree, hset⟩
    refine ⟨⟨h.disk, hfiled, fun name f hf => ?_, h.removals⟩, rfl, htransaction, ?_⟩
    · rw [hset, Bitmap.test_set, Bool.or_eq_true]
      exact .inr (h.marked name f hf)
    intro id' hid
    rw [← ok.inj hid]
    refine ⟨habsent, fun name f hf heq => ?_, hbound, ?_⟩
    · -- The ID of a file is marked, so it was not free.
      have hused := h.marked name f hf
      rw [heq] at hused
      exact absurd (hused.symm.trans hfree) Bool.noConfusion
    · rw [hset, Bitmap.test_set, decide_eq_true rfl, Bool.true_or]

theorem ok_markDeviceIDFree (h : OK strict w) {id : Nat} (hunused : Unused w.disk id) :
    OK strict { w with mem := markDeviceIDFree id w.mem } := by
  refine { h with marked := fun name f hf => ?_ }
  rw [markDeviceIDFree, Bitmap.test_clear, h.marked name f hf, decide_eq_false (hunused name f hf)]
  rfl

end DeviceIDs

section Transactions

variable {strict : Prop} {w : World}

/-- The transaction on disk, and the one in memory, are about the hash. -/
def Opened (hash : Str) (w : World) : Prop :=
  w.mem.transaction.deviceIDHash = hash ∧ ∀ t, w.disk.transaction = some t → t.deviceIDHash = hash

variable (h : OK strict w)
include h

/-- A transaction about a device may be saved when no other file has its ID. -/
theorem ok_saveTransactionMetaData
    (hother : Own w.disk w.mem.transaction.deviceIDHash w.mem.transaction.deviceID) :
    Ends Durable saveTransactionMetaData w (fun r w' => OK strict w' ∧ w'.mem = w.mem ∧
      w'.disk.files = w.disk.files ∧ (r = .ok () → w'.disk.transaction = some w.mem.transaction) ∧
      (w'.disk.transaction = w.disk.transaction ∨
        w'.disk.transaction = some w.mem.transaction)) := by
  have hpop := ok_pop h .write
  refine ends_act ?_ (fun e => ⟨hpop, rfl, rfl, nofun, .inl rfl⟩) hpop.disk
  refine ⟨⟨⟨h.disk.named, h.disk.distinct, fun t ht => ?_⟩, h.filed, h.marked, hpop.removals⟩,
    rfl, rfl, fun _ => rfl, .inr rfl⟩
  rw [← some.inj ht]
  exact hother

theorem ok_openTransaction {hash : Str} {id : Nat} (hother : Own w.disk hash id) :
    Ends Durable (openTransaction hash id) w (fun r w' => OK strict w' ∧
      w'.mem.deviceIDMap = w.mem.deviceIDMap ∧ w'.disk.files = w.disk.files ∧
        (r = .ok () → Opened hash w')) := by
  let w1 : World := { w with mem :=
    { w.mem with transaction := ⟨(w.mem.transactionID + 1) % 2 ^ 64, hash, id⟩ } }
  have h1 : OK strict w1 := { h with }
  refine ends_update (ends_mono (ok_saveTransactionMetaData h1 hother) ?_)
  rintro r w' ⟨hok, hmem, hfiles, hsaved, _⟩
  refine ⟨hok, by rw [hmem], hfiles, fun hr => ⟨by rw [hmem], fun t ht => ?_⟩⟩
  rw [hsaved hr] at ht
  rw [← some.inj ht]

/-- A transaction that is about the hash is renewed for a fresh ID. -/
theorem ok_refreshTransaction {hash : Str} {id : Nat} (hopen : Opened hash w)
    (hfresh : Fresh hash id w) :
    Ends Durable (refreshTransaction id) w (fun _ w' => OK strict w' ∧ Opened hash w' ∧
      Fresh hash id w') := by
  let w1 : World := { w with mem :=
    { w.mem with transaction := { w.mem.transaction with deviceID := id } } }
  have h1 : OK strict w1 := { h with }
  refine ends_update (ends_mono (ok_saveTransactionMetaData h1
    (fun name f hf heq => absurd heq (hfresh.unused name f hf))) ?_)
  rintro r w' ⟨hok, hmem, hfiles, _, htransaction⟩
  refine ⟨hok, ⟨by rw [hmem]; exact hopen.1, fun t ht => ?_⟩, ?_⟩
  · rcases htransaction with ht' | ht'
    · exact hopen.2 t (by rw [← ht, ht'])
    · rw [ht'] at ht
      cases ht
      exact hopen.1
  · exact fresh_of_eq hfresh hfiles (by rw [hmem])

/-- Closing a transaction leaves the devices and their files alone. -/
theorem ok_closeTransaction :
    Ends Durable closeTransaction w (fun _ w' => OK strict w' ∧ w'.mem.devices = w.mem.devices ∧
      w'.disk = w.disk) := by
  refine ends_look ?_
  split
  · have hpop := ok_pop h .message
    exact ends_act ⟨{ h with removals := hpop.removals }, rfl, rfl⟩
      (fun e => ⟨hpop, rfl, rfl⟩) hpop.disk
  · exact ends_raise ⟨h, rfl, rfl⟩

theorem ok_idle {k : Kind} {e : DevError} :
    Ends Durable (act k e (fun w => w)) w (fun _ w' => OK strict w' ∧ w'.mem = w.mem ∧
      w'.disk = w.disk) :=
  ends_act ⟨ok_pop h k, rfl, rfl⟩ (fun _ => ⟨ok_pop h k, rfl, rfl⟩) h.disk

end Transactions

section Files

variable {strict : Prop} {w : World}

variable {d : Disk} {hash : Str} {info f : DevInfo}

/-- A device is changed in memory, with the ID of its file. -/
theorem filed_setDevice {m : Memory} (h : Filed d m) (hplain : Plain hash)
    (hfile : HasFile d hash info.deviceID) :
    Filed d { m with devices := m.devices.insert hash info } := by
  intro hash' i hi
  rcases lookup_insert_cases hi with ⟨_, hold⟩ | ⟨heq, hnew⟩
  · exact h hash' i hold
  · rw [heq, hnew]
    exact ⟨hplain, hfile⟩

/-- The file of a hash that is not in the table is removed. -/
theorem diskOK_eraseFile (h : DiskOK d) (name : Str) :
    DiskOK { d with files := d.files.erase name } := by
  have hold : ∀ n f, (d.files.erase name).lookup n = some f → d.files.lookup n = some f :=
    fun n f hf => (lookup_erase_cases hf).2
  exact ⟨fun n f hf => h.named n f (hold n f hf),
    fun n n' f f' hf hf' => h.distinct n n' f f' (hold n f hf) (hold n' f' hf'),
    fun t ht n f hf => h.pending t ht n f (hold n f hf)⟩

/-- Nothing but the table changes, and in the table devices are added. -/
structure Loads (w w' : World) : Prop where
  same : w' = { w with mem := { w.mem with devices := w'.mem.devices } }
  filed : Filed w'.disk w'.mem
  kept : ∀ hash i, w.mem.devices.lookup hash = some i → w'.mem.devices.lookup hash = some i

theorem loads_trans {w w' w'' : World} (h : Loads w w') (h' : Loads w' w'') : Loads w w'' := by
  refine ⟨?_, h'.filed, fun hash i hi => h'.kept hash i (h.kept hash i hi)⟩
  rw [h'.same, h.same]

/-- A device that is looked up is in the table, and one that is not found has no
    file. -/
theorem loads_lookupDevice (hdisk : DiskOK w.disk) (h : Filed w.disk w.mem) (hplain : Plain hash) :
    Ends Durable (lookupDevice hash) w (fun r w' => Loads w w' ∧
      (∀ info, r = .ok info → w'.mem.devices.lookup hash = some info) ∧
      ∀ e, r = .error e → NoFile w.disk hash) := by
  refine ends_look ?_
  cases hdevice : w.mem.devices.lookup hash with
  | some info =>
    refine ends_pure ⟨⟨rfl, h, fun _ _ hi => hi⟩, fun info' hinfo => ?_, nofun⟩
    rw [hdevice, ok.inj hinfo]
  | none =>
    refine ends_look ?_
    cases hfile : w.disk.files.lookup (metadataFile hash) with
    | none =>
      rw [loadMetadata, hfile]
      exact ends_raise ⟨⟨rfl, h, fun _ _ hi => hi⟩, nofun, fun _ _ => hfile⟩
    | some f =>
      have hbound : ¬ f.deviceID > maxDeviceID := Nat.not_lt.mpr (hdisk.named _ f hfile).1
      rw [loadMetadata, hfile]
      simp only [if_neg hbound]
      refine ends_update (ends_pure ⟨⟨rfl, filed_setDevice h hplain ⟨f, hfile, rfl⟩, ?_⟩, ?_,
        nofun⟩)
      -- The device was not in the table, so no other is replaced.
      · intro hash' i hi
        rw [lookup_insert_ne (fun heq => ?_)]
        · exact hi
        · rw [heq, hdevice] at hi
          nomatch hi
      · intro info hinfo
        rw [← ok.inj hinfo]
        exact lookup_insert _

theorem unused_eraseFile (h : DiskOK d) {name : Str} (hf : d.files.lookup name = some f) :
    Unused { d with files := d.files.erase name } f.deviceID := by
  intro name' f' hf' heq
  rcases lookup_erase_cases hf' with ⟨hname, hold⟩
  exact hname (h.distinct name' name f' f hold hf heq)

variable (h : OK strict w)
include h

theorem ok_setDevice (hplain : Plain hash) (hfile : HasFile w.disk hash info.deviceID) :
    OK strict { w with mem := { w.mem with devices := w.mem.devices.insert hash info } } :=
  { h with filed := filed_setDevice h.filed hplain hfile }

theorem ok_eraseDevice {devices : AMap Str DevInfo}
    (hsame : ∀ hash', hash' ≠ hash → devices.lookup hash' = w.mem.devices.lookup hash') :
    OK strict { w with mem := { w.mem with devices := devices.erase hash } } := by
  refine { h with filed := fun hash' i hi => ?_ }
  rcases lookup_erase_cases hi with ⟨hne, hold⟩
  rw [hsame hash' hne] at hold
  exact h.filed hash' i hold

theorem ok_insertFile (hnamed : ∃ hash', Plain hash' ∧ metadataFile hash = metadataFile hash')
    (hbound : info.deviceID ≤ maxDeviceID) (hown : Own w.disk hash info.deviceID)
    (hmarked : w.mem.deviceIDMap.test info.deviceID = true)
    (hpending : ∀ t, w.disk.transaction = some t → info.deviceID = t.deviceID →
      metadataFile hash = metadataFile t.deviceIDHash)
    (hfiled : ∀ f, w.disk.files.lookup (metadataFile hash) = some f → f.deviceID = info.deviceID) :
    OK strict { w with disk :=
      { w.disk with files := w.disk.files.insert (metadataFile hash) info } } := by
  refine ⟨⟨fun name g hg => ?_, fun name name' g g' hg hg' heq => ?_, fun t ht name g hg heq => ?_⟩,
    fun hash' i hi => ?_, fun name g hg => ?_, h.removals⟩
  · rcases lookup_insert_cases hg with ⟨_, hg0⟩ | ⟨hname, hnew⟩
    · exact h.disk.named name g hg0
    · rw [hname, hnew]
      exact ⟨hbound, hnamed⟩
  -- Two files with one ID are old ones, or one of them is the new one.
  · rcases lookup_insert_cases hg with ⟨_, hg0⟩ | ⟨hname, hnew⟩ <;>
      rcases lookup_insert_cases hg' with ⟨_, hg1⟩ | ⟨hname', hnew'⟩
    · exact h.disk.distinct name name' g g' hg0 hg1 heq
    · rw [hname']
      exact hown name g hg0 (by rw [heq, hnew'])
    · rw [hname]
      exact (hown name' g' hg1 (by rw [← heq, hnew])).symm
    · rw [hname, hname']
  · rcases lookup_insert_cases hg with ⟨_, hg0⟩ | ⟨hname, hnew⟩
    · exact h.disk.pending t ht name g hg0 heq
    · rw [hname]
      exact hpending t ht (by rw [← heq, hnew])
  · rcases h.filed hash' i hi with ⟨hplain, f, hf, hid⟩
    refine ⟨hplain, ?_⟩
    by_cases heq : metadataFile hash' = metadataFile hash
    · rw [heq] at hf
      rw [heq, lookup_insert]
      exact ⟨info, rfl, (hfiled f hf).symm.trans hid⟩
    · rw [lookup_insert_ne heq]
      exact ⟨f, hf, hid⟩
  · rcases lookup_insert_cases hg with ⟨_, hg0⟩ | ⟨_, hnew⟩
    · exact h.marked name g hg0
    · rw [hnew]
      exact hmarked

theorem ok_rewrite (hfile : HasFile w.disk hash info.deviceID) : OK strict { w with disk :=
    { w.disk with files := w.disk.files.insert (metadataFile hash) info } } := by
  rcases hfile with ⟨f, hfile, hid⟩
  rcases h.disk.named _ f hfile with ⟨hbound, hnamed⟩
  have hmarked := h.marked _ f hfile
  rw [hid] at hbound hmarked
  refine ok_insertFile h hnamed hbound
    (fun name g hg heq => h.disk.distinct name _ g f hg hfile (heq.trans hid.symm)) hmarked
    (fun t ht heq => h.disk.pending t ht _ f hfile (hid.trans heq)) fun g hg => ?_
  rw [hfile] at hg
  rw [← hid, some.inj hg]

theorem ok_saveMetadata (hfile : HasFile w.disk hash info.deviceID) :
    Ends Durable (saveMetadata hash info) w (fun _ w' => OK strict w' ∧
      HasFile w'.disk hash info.deviceID) :=
  ends_act ⟨ok_rewrite (ok_pop h .write) hfile, info, lookup_insert _, rfl⟩
    (fun _ => ⟨ok_pop h .write, hfile⟩) h.disk

theorem ok_eraseFile (hplain : Plain hash) (hgone : w.mem.devices.lookup hash = none) :
    OK strict { w with disk :=
      { w.disk with files := w.disk.files.erase (metadataFile hash) } } := by
  refine ⟨diskOK_eraseFile h.disk _, fun hash' i hi => ?_, fun name f hf => ?_, h.removals⟩
  · rcases h.filed hash' i hi with ⟨hplain', f, hf, hid⟩
    refine ⟨hplain', f, ?_, hid⟩
    rw [lookup_erase_ne (fun heq => ?_)]
    · exact hf
    · rw [metadataFile_injective hplain' hplain heq, hgone] at hi
      nomatch hi
  · exact h.marked name f (lookup_erase_cases hf).2

theorem ok_lookupDevice (hplain : Plain hash) :
    Ends Durable (lookupDevice hash) w (fun r w' => OK strict w' ∧ w'.disk = w.disk ∧
      (∀ info, r = .ok info → w'.mem.devices.lookup hash = some info) ∧
      ∀ e, r = .error e → NoFile w'.disk hash) := by
  refine ends_mono (loads_lookupDevice h.disk h.filed hplain) ?_
  rintro r w' ⟨hloads, hok, herror⟩
  have hsame := hloads.same
  have hdisk : w'.disk = w.disk := by rw [hsame]
  refine ⟨⟨by rw [hdisk]; exact h.disk, hloads.filed, ?_, ?_⟩, hdisk,
    hok, by rw [hdisk]; exact herror⟩
  · rw [hsame]
    exact h.marked
  · rw [hsame]
    exact h.removals

theorem ok_unregisterDevice {id : Nat} (hplain : Plain hash) (hfile : HasFile w.disk hash id) :
    Ends Durable (unregisterDevice hash) w (fun r w' => OK strict w' ∧
      (r = .ok () → NoFile w'.disk hash) ∧ (r = .ok () ∨ strict → Unused w'.disk id)) := by
  rcases hfile with ⟨f, hf, rfl⟩
  let w1 : World := { w with mem := { w.mem with devices := w.mem.devices.erase hash } }
  have h1 : OK strict w1 := ok_eraseDevice h fun _ _ => rfl
  have hpop := ok_pop h1 .removal
  have hdone : OK strict _ := ok_eraseFile hpop hplain (lookup_erase _ _)
  refine ends_update ?_
  by_cases hstrict : strict
  · exact ends_act_sure (h1.removals hstrict)
      ⟨hdone, fun _ => lookup_erase _ _, fun _ => unused_eraseFile h.disk hf⟩ h.disk
  refine ends_act ⟨hdone, fun _ => lookup_erase _ _, fun _ => unused_eraseFile h.disk hf⟩
    (fun e => ⟨hpop, nofun, fun he => ?_⟩) h.disk
  rcases he with he | he
  · nomatch he
  · exact absurd he hstrict

theorem ok_newFile (hplain : Plain hash) (hopen : Opened hash w)
    (hfresh : Fresh hash info.deviceID w) :
    OK strict { w with
      mem := { w.mem with devices := w.mem.devices.insert hash info }
      disk := { w.disk with files := w.disk.files.insert (metadataFile hash) info } } := by
  have hfile := ok_insertFile h ⟨hash, hplain, rfl⟩ hfresh.bound
    (fun name f hf heq => absurd heq (hfresh.unused name f hf)) hfresh.marked
    (fun t ht _ => by rw [hopen.2 t ht]) fun f hf => by rw [hfresh.absent] at hf; nomatch hf
  exact ok_setDevice hfile hplain ⟨info, lookup_insert _, rfl⟩

/-- A device is registered under the open transaction, or everything is as before. -/
theorem ok_registerDevice {id : Nat} (hplain : Plain hash) (hopen : Opened hash w)
    (hfresh : Fresh hash id w) (size transactionID : Nat) :
    Ends Durable (registerDevice id hash size transactionID) w (fun r w' => OK strict w' ∧
      match r with
      | .error _ => Fresh hash id w'
      | .ok info => w'.mem.devices.lookup hash = some info ∧
          w'.disk.files.lookup (metadataFile hash) = some info ∧ info.deviceID = id) := by
  refine ends_update (ends_attempt_bind (ends_act ?_ (fun e => ?_) h.disk))
  · have hfresh' : Fresh hash id (pop .write w) := fresh_of_eq hfresh rfl rfl
    exact ends_pure ⟨ok_newFile (ok_pop h .write) hplain hopen hfresh', lookup_insert _,
      lookup_insert _, rfl⟩
  · exact ends_update (ends_raise ⟨ok_eraseDevice (ok_pop h .write)
      (fun hash' hne => lookup_insert_ne hne), fresh_of_eq hfresh rfl rfl⟩)

end Files

section Creation

variable {strict : Prop} {w : World}

theorem ok_createLoop {hash : Str} (outcomes : List Outcome) : ∀ (id : Nat) (w : World),
    OK strict w → Opened hash w → Fresh hash id w →
    Ends Durable (createLoop id outcomes) w (fun r w' => OK strict w' ∧
      ∀ id', r = .ok id' → Opened hash w' ∧ Fresh hash id' w') := by
  induction outcomes with
  | nil =>
    intro id w h hopen hfresh
    refine ends_pure ⟨h, fun id' hid => ?_⟩
    rw [← ok.inj hid]
    exact ⟨hopen, hfresh⟩
  | cons o rest ih =>
    intro id w h hopen hfresh
    -- However the message went, only an outcome is gone.
    have hmessage : Ends Durable (act .message .createDevice fun w => w) w
        (fun _ w' => w' = pop .message w) := ends_act rfl (fun _ => rfl) h.disk
    refine ends_attempt_bind (ends_mono hmessage ?_)
    rintro sent w' rfl
    have hpop := ok_pop h .message
    split
    · refine ends_bind (ok_getNextFreeDeviceID hpop hfresh.absent)
        (fun e w' hw' => ⟨hw'.1, nofun⟩) ?_
      rintro id1 w1 ⟨hok1, hdisk1, hmem1, hfresh1⟩
      have hopen1 : Opened hash w1 := ⟨by rw [hmem1]; exact hopen.1, by rw [hdisk1]; exact hopen.2⟩
      refine ends_attempt_bind (ends_mono (ok_refreshTransaction hok1 hopen1 (hfresh1 id1 rfl)) ?_)
      rintro _ w2 ⟨hok2, hopen2, hfresh2⟩
      exact ih id1 w2 hok2 hopen2 hfresh2
    · cases sent with
      | error e =>
        exact ends_update (ends_raise ⟨ok_markDeviceIDFree hpop hfresh.unused, nofun⟩)
      | ok u =>
        refine ends_pure ⟨hpop, fun id' hid => ?_⟩
        rw [← ok.inj hid]
        exact ⟨hopen, fresh_of_eq hfresh rfl rfl⟩

theorem ok_createRegister (h : OK True w) {hash : Str} (hplain : Plain hash)
    (habsent : NoFile w.disk hash) (size : Nat) :
    Ends Durable (createRegister hash size) w (fun r w' => OK True w' ∧
      ∀ info, r = .ok info → w'.mem.devices.lookup hash = some info) := by
  refine ends_bind (ok_getNextFreeDeviceID h habsent) (fun e w' hw' => ⟨hw'.1, nofun⟩) ?_
  rintro id w1 ⟨hok1, hdisk1, -, hfresh1⟩
  have hfresh1 := hfresh1 id rfl
  refine ends_attempt_bind (ends_mono (ok_openTransaction hok1
    (fun name f hf heq => absurd heq (hfresh1.unused name f hf))) ?_)
  rintro r w2 ⟨hok2, hmap2, hfiles2, hopen2⟩
  have hfresh2 : Fresh hash id w2 := fresh_of_eq hfresh1 hfiles2 hmap2
  rcases r with e | u
  · exact ends_update (ends_raise ⟨ok_markDeviceIDFree hok2 hfresh2.unused, nofun⟩)
  -- From here on the transaction is open, and every exit closes or renews it.
  refine ends_look (ends_bind (ok_createLoop _ id w2 hok2 (hopen2 rfl) hfresh2) ?_ ?_)
  · exact fun e w' hw' => ⟨hw'.1, nofun⟩
  rintro id3 w3 ⟨hok3, hfresh3⟩
  rcases hfresh3 id3 rfl with ⟨hopen3, hfresh3⟩
  refine ends_look (ends_attempt_bind (ends_mono
    (ok_registerDevice hok3 hplain hopen3 hfresh3 size _) ?_))
  rintro r w4 ⟨hok4, hr⟩
  rcases r with e | info
  · refine ends_attempt_bind (ends_mono (ok_idle hok4) ?_)
    rintro _ w5 ⟨hok5, -, hdisk5⟩
    exact ends_update (ends_raise ⟨ok_markDeviceIDFree hok5 (by rw [hdisk5]; exact hr.unused),
      nofun⟩)
  rcases hr with ⟨hdevice, hfile, hid⟩
  refine ends_attempt_bind (ends_mono (ok_closeTransaction hok4) ?_)
  rintro r w5 ⟨hok5, hdevices5, hdisk5⟩
  cases r with
  | ok u =>
    refine ends_pure ⟨hok5, fun info' hinfo => ?_⟩
    rw [hdevices5, hdevice, ok.inj hinfo]
  -- The transaction could not be closed: the device is unregistered, and its ID is free again.
  | error e =>
    refine ends_attempt_bind (ends_mono
      (ok_unregisterDevice hok5 hplain ⟨info, by rw [hdisk5]; exact hfile, hid⟩) ?_)
    rintro _ w6 ⟨hok6, -, hunused6⟩
    refine ends_attempt_bind (ends_mono (ok_idle hok6) ?_)
    rintro _ w7 ⟨hok7, -, hdisk7⟩
    refine ends_update (ends_raise ⟨ok_markDeviceIDFree hok7 ?_, nofun⟩)
    rw [hdisk7]
    exact hunused6 (.inr trivial)

theorem ok_addDevice (h : OK True w) {hash baseHash : Str} (hplain : Plain hash)
    (hbase : Plain baseHash) (size : Nat) :
    Ends Durable (addDevice hash baseHash size) w (fun _ w' => OK True w') := by
  refine ends_bind (ok_lookupDevice h hbase) (fun e w' hw' => hw'.1) ?_
  rintro baseInfo w1 ⟨hok1, -, -, -⟩
  split
  · exact ends_raise hok1
  refine ends_attempt_bind (ends_mono (ok_lookupDevice hok1 hplain) ?_)
  rintro r w2 ⟨hok2, -, -, habsent2⟩
  -- A device that is not found has no file, which a creation asks for.
  cases r with
  | ok info => exact ends_raise hok2
  | error e =>
    simp only
    generalize (if size = 0 then baseInfo.size else size) = size'
    split
    · exact ends_raise hok2
    · refine ends_bind (Q := fun _ w' => OK True w')
        (ends_bind (ok_idle hok2) (fun e w' hw' => hw'.1) ?_)
        (fun e w' hw' => hw') ?_
      · rintro _ w3 ⟨hok3, -, hdisk3⟩
        refine ends_bind (ok_createRegister hok3 hplain ?_ _) (fun e w' hw' => hw'.1)
          (fun _ w' hw' => ends_pure hw'.1)
        rw [hdisk3]
        exact habsent2 e rfl
      · intro _ w3 hok3
        split
        · refine ends_bind (ok_lookupDevice hok3 hplain) (fun e w' hw' => hw'.1) ?_
          exact fun _ w4 hw4 => ends_mono (ok_idle hw4.1) fun _ _ hw' => hw'.1
        · exact ends_pure hok3

end Creation

section Deletion

variable {strict : Prop} {w : World} (opts : Options)

theorem ok_markForDeferredDeletion (h : OK strict w) {hash : Str} {info : DevInfo}
    (hplain : Plain hash) (hfile : HasFile w.disk hash info.deviceID) :
    Ends Durable (markForDeferredDeletion hash info) w (fun _ w' => OK strict w') := by
  unfold markForDeferredDeletion
  split
  · exact ends_pure h
  refine ends_update (ends_attempt_bind (ends_mono
    (ok_saveMetadata (ok_setDevice h hplain hfile) hfile) ?_))
  rintro r w1 ⟨hok1, hfile1⟩
  cases r with
  | ok u => exact ends_pure hok1
  | error e => exact ends_update (ends_raise (ok_setDevice hok1 hplain hfile1))

theorem ok_deleteOpen (h : OK strict w) {hash : Str} {info : DevInfo} (hplain : Plain hash)
    (hfile : HasFile w.disk hash info.deviceID) (syncDelete : Bool) :
    Ends Durable (deleteOpen opts hash info syncDelete) w (fun r w' => OK strict w' ∧
      (syncDelete = true → r = .ok () → NoFile w'.disk hash)) := by
  refine ends_attempt_bind (ends_mono (ok_idle h) ?_)
  rintro r w1 ⟨hok1, -, hdisk1⟩
  rw [← hdisk1] at hfile
  cases r with
  | error e =>
    simp only
    split
    · exact ends_raise ⟨hok1, nofun⟩
    next hdefer =>
    refine ends_mono (ok_markForDeferredDeletion hok1 hplain hfile) fun r w' hw' => ⟨hw', ?_⟩
    intro hsync
    rw [hsync] at hdefer
    exact absurd rfl hdefer
  | ok u =>
    refine ends_bind (ok_unregisterDevice hok1 hplain hfile) (fun e w' hw' => ⟨hw'.1, nofun⟩) ?_
    rintro _ w2 ⟨hok2, habsent2, hunused2⟩
    exact ⟨ok_markDeviceIDFree hok2 (hunused2 (.inl rfl)), fun _ _ => habsent2 rfl⟩

/-- A deletion keeps the invariant. One that is not deferred removes the file. -/
theorem ok_deleteDevice (h : OK strict w) {hash : Str} (hplain : Plain hash) (syncDelete : Bool) :
    Ends Durable (deleteDevice opts hash syncDelete) w (fun r w' => OK strict w' ∧
      (syncDelete = true → r = .ok () → NoFile w'.disk hash)) := by
  refine ends_bind (ok_lookupDevice h hplain) (fun e w' hw' => ⟨hw'.1, nofun⟩) ?_
  rintro info w1 ⟨hok1, -, hdevice1, -⟩
  refine ends_bind (ok_idle hok1) (fun e w' hw' => ⟨hw'.1, nofun⟩) ?_
  rintro _ w2 ⟨hok2, hmem2, -⟩
  have hdevice2 : w2.mem.devices.lookup hash = some info := by
    rw [hmem2]
    exact hdevice1 info rfl
  rcases hok2.filed hash info hdevice2 with ⟨-, f, hfile2, hid⟩
  -- The device has its file, so its ID is no other file's.
  have hother : Own w2.disk hash info.deviceID :=
    fun name g hg heq => hok2.disk.distinct name _ g f hg hfile2 (heq.trans hid.symm)
  refine ends_bind (ok_openTransaction hok2 hother) (fun e w' hw' => ⟨hw'.1, nofun⟩) ?_
  rintro _ w3 ⟨hok3, -, hfiles3, -⟩
  refine ends_attempt_bind (ends_mono (ok_deleteOpen opts hok3 hplain
    ⟨f, by rw [hfiles3]; exact hfile2, hid⟩ syncDelete) ?_)
  rintro deleted w4 ⟨hok4, habsent4⟩
  refine ends_attempt_bind (ends_mono (ok_closeTransaction hok4) ?_)
  rintro _ w5 ⟨hok5, -, hdisk5⟩
  rcases deleted with e | u
  · exact ends_raise ⟨hok5, nofun⟩
  refine ends_pure ⟨hok5, fun hsync _ => ?_⟩
  rw [hdisk5]
  exact habsent4 hsync rfl

end Deletion

section BaseImage

variable {w : World} (opts : Options)

theorem plain_nil : Plain [] := .inl rfl

theorem ok_checkGrowBaseDeviceFS {strict : Prop} (h : OK strict w) {info : DevInfo}
    (hdevice : w.mem.devices.lookup [] = some info) :
    Ends Durable (checkGrowBaseDeviceFS opts info) w (fun _ w' => OK strict w') := by
  rcases h.filed [] info hdevice with ⟨-, hfile⟩
  unfold checkGrowBaseDeviceFS
  split
  · exact ends_pure h
  split
  · exact ends_raise h
  split
  · exact ends_pure h
  refine ends_update (ends_attempt_bind (ends_mono
    (ok_saveMetadata (ok_setDevice h plain_nil hfile) hfile) ?_))
  rintro r w1 ⟨hok1, -⟩
  cases r with
  | error e => exact ends_update (ends_raise (ok_eraseDevice hok1 fun _ _ => rfl))
  | ok u => exact ends_mono (ok_idle hok1) fun _ _ hw' => hw'.1

theorem ok_saveDeviceSetMetaData {strict : Prop} (h : OK strict w) :
    Ends Durable saveDeviceSetMetaData w (fun _ w' => OK strict w') :=
  have hpop := ok_pop h .write
  ends_act ⟨⟨h.disk.named, h.disk.distinct, h.disk.pending⟩, h.filed, h.marked, hpop.removals⟩
    (fun _ => hpop) h.disk

theorem ok_createBaseImage (h : OK True w) (habsent : NoFile w.disk []) :
    Ends Durable (createBaseImage opts) w (fun _ w' => OK True w') := by
  refine ends_bind (ok_createRegister h plain_nil habsent _) (fun e w' hw' => hw'.1) ?_
  rintro info w1 ⟨hok1, hdevice1⟩
  refine ends_bind (ok_idle hok1) (fun e w' hw' => hw'.1) ?_
  rintro _ w2 ⟨hok2, hmem2, -⟩
  rcases hok2.filed [] info (by rw [hmem2]; exact hdevice1 info rfl) with ⟨-, hfile⟩
  refine ends_update (ends_attempt_bind (ends_mono
    (ok_saveMetadata (ok_setDevice hok2 plain_nil hfile) hfile) ?_))
  rintro r w3 ⟨hok3, hfile3⟩
  cases r with
  | error e => exact ends_update (ends_raise (ok_setDevice hok3 plain_nil hfile3))
  | ok u =>
    refine ends_bind (ok_idle hok3) (fun e w' hw' => hw'.1) ?_
    exact fun _ w4 hw4 => ok_saveDeviceSetMetaData hw4.1

theorem ok_setupBaseImage (h : OK True w) :
    Ends Durable (setupBaseImage opts) w (fun _ w' => OK True w') := by
  refine ends_attempt_bind (ends_mono (ok_lookupDevice h plain_nil) ?_)
  rintro r w1 ⟨hok1, -, hdevice1, habsent1⟩
  cases r with
  | error e =>
    refine ends_bind (ok_idle hok1) (fun e w' hw' => hw'.1) ?_
    rintro _ w2 ⟨hok2, -, hdisk2⟩
    exact ok_createBaseImage opts hok2 (by rw [hdisk2]; exact habsent1 e rfl)
  | ok oldInfo =>
    simp only
    split
    · refine ends_bind (ok_idle hok1) (fun e w' hw' => hw'.1) ?_
      rintro _ w2 ⟨hok2, hmem2, -⟩
      exact ok_checkGrowBaseDeviceFS opts hok2 (by rw [hmem2]; exact hdevice1 oldInfo rfl)
    · refine ends_bind (ok_deleteDevice opts hok1 plain_nil true) (fun e w' hw' => hw'.1) ?_
      rintro _ w2 ⟨hok2, habsent2⟩
      exact ok_createBaseImage opts hok2 (habsent2 rfl rfl)

end BaseImage

section Start

variable {w : World}

/-- The file of a hash is not passed over, and leads back to the hash. -/
theorem walk_metadataFile {hash : Str} (hplain : Plain hash) :
    deviceFileWalkFunction (metadataFile hash) = (do let _ ← lookupDevice hash) := by
  unfold deviceFileWalkFunction metadataFile
  rcases hplain with hnil | ⟨hbase, hskip, -⟩
  · rw [hnil]
    rfl
  by_cases hnil : hash = []
  · rw [hnil]
    rfl
  · simp only [if_neg hnil, hskip, Bool.false_eq_true, if_false, if_neg hbase]

theorem loads_loadDeviceFilesOnStart (names : List Str) : ∀ w : World, DiskOK w.disk →
    Filed w.disk w.mem → (∀ name ∈ names, ∃ hash, Plain hash ∧ name = metadataFile hash) →
    Ends Durable (loadDeviceFilesOnStart names) w (fun r w' => Loads w w' ∧
      (r = .ok () → ∀ hash, Plain hash → metadataFile hash ∈ names →
        ∃ i, w'.mem.devices.lookup hash = some i)) := by
  induction names with
  | nil =>
    intro w hdisk hfiled _
    exact ends_pure ⟨⟨rfl, hfiled, fun _ _ hi => hi⟩, nofun⟩
  | cons name names ih =>
    intro w hdisk hfiled hnames
    rcases hnames name mem_cons_self with ⟨hash, hplain, rfl⟩
    have hone : Ends Durable (do let _ ← lookupDevice hash) w (fun r w' => Loads w w' ∧
        (r = .ok () → ∃ i, w'.mem.devices.lookup hash = some i)) :=
      ends_bind (loads_lookupDevice hdisk hfiled hplain) (fun e w' hw' => ⟨hw'.1, nofun⟩)
        (fun info w' hw' => ends_pure ⟨hw'.1, fun _ => ⟨info, hw'.2.1 info rfl⟩⟩)
    rw [loadDeviceFilesOnStart, walk_metadataFile hplain]
    refine ends_bind hone (fun e w' hw' => ⟨hw'.1, nofun⟩) ?_
    rintro _ w1 ⟨hloads, hdevice⟩
    -- The walk does not write, so what comes later is loaded from the same files.
    have hdisk1 : w1.disk = w.disk := by rw [hloads.same]
    refine ends_mono (ih w1 (by rw [hdisk1]; exact hdisk) hloads.filed
      (forall_mem_cons.mp hnames).2) ?_
    rintro r w2 ⟨hloads2, hall⟩
    refine ⟨loads_trans hloads hloads2, fun hr hash' hplain' hin => ?_⟩
    rcases mem_cons.mp hin with heq | hin'
    · rw [metadataFile_injective hplain' hplain heq]
      rcases hdevice rfl with ⟨i, hi⟩
      exact ⟨i, hloads2.kept hash i hi⟩
    · exact hall hr hash' hplain' hin'

/-- Marking the IDs of some devices changes nothing but the bitmap, where it marks
    them. -/
theorem foldl_mark (l : List (Sigma fun _ : Str => DevInfo)) : ∀ m : Memory,
    let m' := l.foldl (fun m e => markDeviceIDUsed e.2.deviceID m) m
    m'.devices = m.devices ∧ m'.transactionID = m.transactionID ∧
      ∀ id, m.deviceIDMap.test id = true ∨ (∃ e ∈ l, e.2.deviceID = id) →
        m'.deviceIDMap.test id = true := by
  induction l with
  | nil =>
    intro m
    refine ⟨rfl, rfl, fun id hid => ?_⟩
    rcases hid with hid | ⟨e, he, _⟩
    · exact hid
    · nomatch he
  | cons e l ih =>
    intro m
    rcases ih (markDeviceIDUsed e.2.deviceID m) with ⟨hdevices, htransaction, hmap⟩
    refine ⟨hdevices, htransaction, fun id hid => hmap id ?_⟩
    rw [markDeviceIDUsed, Bitmap.test_set, Bool.or_eq_true, decide_eq_true_eq]
    rcases hid with hid | ⟨e', he', hid⟩
    · exact .inl (.inr hid)
    · rcases mem_cons.mp he' with heq | hin
      · exact .inl (.inl (by rw [← hid, heq]))
      · exact .inr ⟨e', hin, hid⟩

theorem erase_absent (d : Disk) {name : Str} (h : d.files.lookup name = none) :
    { d with files := d.files.erase name } = d := by
  have herase : d.files.erase name = d.files :=
    ext (kerase_of_notMem_keys (lookup_eq_none.mp h))
  rw [herase]

theorem ok_rollbackTransaction {strict : Prop} (h : OK strict w)
    (htransaction : w.disk.transaction = some w.mem.transaction)
    (habsent : NoFile w.disk w.mem.transaction.deviceIDHash) :
    Ends Durable rollbackTransaction w (fun _ w' => OK strict w') := by
  -- No file has the ID: one that had it would be the file that is not there.
  have hunused : Unused w.disk w.mem.transaction.deviceID := by
    intro name f hf heq
    rw [h.disk.pending _ htransaction name f hf heq, habsent] at hf
    nomatch hf
  have hend : ∀ w', OK strict w' → Ends Durable
      (do let _ ← attempt removeTransactionMetaData) w' (fun _ w' => OK strict w') := by
    intro w' h'
    have hpop := ok_pop h' .removal
    refine ends_attempt_bind (ends_act (ends_pure ?_) (fun _ => ends_pure hpop) h'.disk)
    exact ⟨⟨h'.disk.named, h'.disk.distinct, nofun⟩, h'.filed, h'.marked, hpop.removals⟩
  refine ends_look (ends_attempt_bind (ends_mono (ok_idle h) ?_))
  rintro _ w1 ⟨hok1, hmem1, hdisk1⟩
  have hpop := ok_pop hok1 .removal
  refine ends_attempt_bind (ends_act ?_ (fun e => hend _ hpop) hok1.disk)
  have herase := erase_absent w1.disk (by rw [hdisk1]; exact habsent)
  have hdone := hpop
  unfold pop at hdone
  rw [← herase] at hdone
  refine ends_update (hend _ (ok_markDeviceIDFree hdone ?_))
  rw [herase, hdisk1]
  exact hunused

theorem ok_processPendingTransaction {strict : Prop} (h : OK strict w)
    (hcareful : ∀ t, w.disk.transaction = some t → w.mem.transactionID < t.openTransactionID →
      NoFile w.disk t.deviceIDHash) :
    Ends Durable processPendingTransaction w (fun _ w' => OK strict w') := by
  -- What is loaded is the transaction on disk, or one that is closed.
  have hload : Ends Durable loadTransactionMetaData w (fun r w' => r = .ok () ∧ OK strict w' ∧
      w'.disk = w.disk ∧ (w'.mem.transactionID < w'.mem.transaction.openTransactionID →
        w'.disk.transaction = some w'.mem.transaction ∧
          w'.mem.transactionID = w.mem.transactionID)) := by
    refine ends_look ?_
    cases ht : w.disk.transaction with
    | none =>
      exact ⟨rfl, { h with }, rfl, fun hlt => absurd hlt (Nat.lt_irrefl _)⟩
    | some t => exact ⟨rfl, { h with }, rfl, fun _ => ⟨ht, rfl⟩⟩
  refine ends_bind hload (fun e w' hw' => hw'.2.1) ?_
  rintro _ w1 ⟨-, hok1, hdisk1, hopen1⟩
  refine ends_look ?_
  split
  · next hlt =>
    have hlt := of_decide_eq_true hlt
    rcases hopen1 hlt with ⟨ht, htransaction⟩
    have habsent := hcareful _ (by rw [← hdisk1]; exact ht) (by rw [← htransaction]; exact hlt)
    refine ends_bind (ok_rollbackTransaction hok1 ht (by rw [hdisk1]; exact habsent))
      (fun e w' hw' => hw') ?_
    exact fun _ w2 hok2 => { hok2 with }
  · exact ends_pure hok1

/-- A start, if it does not roll a transaction back whose device has its file. -/
theorem ok_initMetaData {d : Disk} (hdisk : DiskOK d) (pool : Nat) (o : Outcomes)
    (hcareful : ∀ t, d.transaction = some t → pool < t.openTransactionID →
      NoFile d t.deviceIDHash) :
    Ends Durable initMetaData ⟨d, pool, .new, o⟩ (fun r w' =>
      Durable w' ∧ (r = .ok () → OK False w')) := by
  have hkeys : ∀ name ∈ d.files.keys, ∃ hash, Plain hash ∧ name = metadataFile hash := by
    intro name hin
    rcases lookup_isSome.mpr (mem_keys.mpr hin) |> isSome_iff_exists.mp with ⟨f, hf⟩
    exact (hdisk.named name f hf).2
  have hempty : Filed d { Memory.new with transactionID := pool } := nofun
  refine ends_look (ends_update (ends_look (ends_bind
    (loads_loadDeviceFilesOnStart _ _ hdisk hempty hkeys) ?_ ?_)))
  · rintro e w' ⟨hloads, -⟩
    refine ⟨?_, nofun⟩
    rw [Durable, hloads.same]
    exact hdisk
  rintro _ w1 ⟨hloads, hall⟩
  have hdisk1 : w1.disk = d := by rw [hloads.same]
  rcases foldl_mark w1.mem.devices.entries w1.mem with ⟨hdevices, htransaction, hmap⟩
  have hok : OK False { w1 with mem := constructDeviceIDMap w1.mem } := by
    refine ⟨by rw [hdisk1]; exact hdisk, ?_, fun name f hf => hmap _ (.inr ?_), False.elim⟩
    · intro hash i hi
      exact hloads.filed hash i (by rwa [constructDeviceIDMap, hdevices] at hi)
    -- The file was passed, so its device is in the table, with its ID.
    rw [hdisk1] at hf
    rcases (hdisk.named name f hf).2 with ⟨hash, hplain, rfl⟩
    have hin : metadataFile hash ∈ d.files.keys :=
      mem_keys.mp (lookup_isSome.mp (by rw [hf]; rfl))
    rcases hall rfl hash hplain hin with ⟨i, hi⟩
    rcases (hloads.filed hash i hi).2 with ⟨f', hf', hid⟩
    rw [hdisk1, hf] at hf'
    rw [some.inj hf']
    exact ⟨⟨hash, i⟩, (mem_entries_iff ..).mpr hi, hid.symm⟩
  refine ends_update (ends_bind (ok_processPendingTransaction hok fun t ht hlt => ?_) ?_ ?_)
  · have hpool : w1.mem.transactionID = pool := by rw [hloads.same]
    rw [hdisk1] at ht ⊢
    refine hcareful t ht ?_
    rw [← hpool, ← htransaction]
    exact hlt
  · exact fun e w' hw' => ⟨hw'.disk, nofun⟩
  · exact fun _ w2 hok2 => ⟨hok2.disk, fun _ => { hok2 with }⟩

end Start

section Runs

/-- No removal of a file fails. -/
def Removes (o : Outcomes) : Prop := ∀ x ∈ o .removal, x = .done ∨ x = .crashed

instance (o : Outcomes) : Decidable (Removes o) := by
  unfold Removes
  infer_instance

/-- No start rolls a transaction back whose device has its file, no removal fails in
    a creation, and the hashes are plain. -/
def Careful (s : State) (r : Action × Outcomes) : Prop :=
  match r.1 with
  | .restart =>
    match s.disk.transaction with
    | none => True
    | some t => s.pool < t.openTransactionID →
        (s.disk.files.lookup (metadataFile t.deviceIDHash)).isNone = true
  | .setupBaseImage => Removes r.2
  | .addDevice hash baseHash _ => Plain hash ∧ Plain baseHash ∧ Removes r.2
  | .deleteDevice hash _ => Plain hash
  | .lookupDevice hash => Plain hash
  | .crash => True
  | .saveDeviceSetMetaData => True

instance (s : State) (r : Action × Outcomes) : Decidable (Careful s r) := by
  rcases r with ⟨a, o⟩
  unfold Careful
  cases a with
  | restart =>
    cases s.disk.transaction with
    | none => exact instDecidableTrue
    | some t => exact inferInstanceAs (Decidable (_ → _))
  | crash => exact instDecidableTrue
  | setupBaseImage => exact inferInstanceAs (Decidable (Removes o))
  | addDevice => exact inferInstanceAs (Decidable (_ ∧ _))
  | deleteDevice hash | lookupDevice hash => exact inferInstanceAs (Decidable (Plain hash))
  | saveDeviceSetMetaData => exact instDecidableTrue

/-- The invariant between calls. -/
def Sound (s : State) : Prop :=
  DiskOK s.disk ∧ ∀ m, s.mem = some m → Filed s.disk m ∧ Marked s.disk m

theorem sound_leave (strict : Prop) {a : Action} {x : Op Unit} {w : World}
    (h : Ends Durable x w (fun r w' => Durable w' ∧ (a ≠ .restart ∨ r = .ok () → OK strict w'))) :
    Sound (leave a (x w)) := by
  unfold Ends at h
  generalize x w = out at h ⊢
  rcases out with ⟨r, w'⟩
  cases r with
  | ok u =>
    have hok := h.2 (.inr rfl)
    refine ⟨h.1, fun m hm => ?_⟩
    rw [← some.inj hm]
    exact ⟨hok.filed, hok.marked⟩
  | error s =>
    -- After a crash, and after a start that failed, there is no memory.
    rcases s with _ | e
    · exact ⟨h, nofun⟩
    by_cases ha : a = .restart
    · rw [ha]
      exact ⟨h.1, nofun⟩
    have hok := h.2 (.inl ha)
    have hleave : leave a (.error (.error e), w') = ⟨w'.disk, w'.pool, some w'.mem⟩ := by
      cases a with
      | restart => exact absurd rfl ha
      | _ => rfl
    rw [hleave]
    refine ⟨h.1, fun m hm => ?_⟩
    rw [← some.inj hm]
    exact ⟨hok.filed, hok.marked⟩

/-- What a call of a daemon that is up keeps. -/
theorem ends_call (opts : Options) {s : State} {m : Memory} {r : Action × Outcomes}
    (hs : DiskOK s.disk) (hm : Filed s.disk m ∧ Marked s.disk m) (hcareful : Careful s r)
    (ha : r.1 ≠ .restart) :
    ∃ strict, Ends Durable (call opts r.1) ⟨s.disk, s.pool, m, r.2⟩ (fun _ w' => OK strict w') := by
  have hlax : OK False ⟨s.disk, s.pool, m, r.2⟩ := ⟨hs, hm.1, hm.2, False.elim⟩
  have hstrict : Removes r.2 → OK True ⟨s.disk, s.pool, m, r.2⟩ :=
    fun h => ⟨hs, hm.1, hm.2, fun _ => h⟩
  rcases r with ⟨a, o⟩
  cases a with
  | restart => exact absurd rfl ha
  | crash => exact ⟨False, hs⟩
  | setupBaseImage => exact ⟨True, ok_setupBaseImage opts (hstrict hcareful)⟩
  | addDevice hash baseHash size =>
    exact ⟨True, ok_addDevice (hstrict hcareful.2.2) hcareful.1 hcareful.2.1 size⟩
  | deleteDevice hash syncDelete =>
    exact ⟨False, ends_mono (ok_deleteDevice opts hlax hcareful syncDelete) fun _ _ hw' => hw'.1⟩
  | lookupDevice hash =>
    exact ⟨False, ends_bind (ok_lookupDevice hlax hcareful) (fun e w' hw' => hw'.1)
      (fun _ w' hw' => ends_pure hw'.1)⟩
  | saveDeviceSetMetaData => exact ⟨False, ok_saveDeviceSetMetaData hlax⟩

theorem step_sound (opts : Options) (r : Action × Outcomes) (s : State) (u : Unit) (s' : State)
    (h : Sound s) (hcareful : Careful s r) (hstep : step opts r s = .ok (u, s')) : Sound s' := by
  unfold step at hstep
  by_cases ha : r.1 = .restart
  · have hmemory : memoryFor s r.1 = some .new := by rw [ha]; rfl
    simp only [hmemory] at hstep
    cases hstep
    rw [ha]
    have hstart : ∀ t, s.disk.transaction = some t → s.pool < t.openTransactionID →
        NoFile s.disk t.deviceIDHash := by
      intro t ht hlt
      simp only [Careful, ha, ht, isNone_iff_eq_none] at hcareful
      exact hcareful hlt
    refine sound_leave False (ends_mono (ok_initMetaData h.1 s.pool r.2 hstart)
      (fun r w' hw' => ⟨hw'.1, ?_⟩))
    exact fun hr => hw'.2 (hr.resolve_left fun hne => hne rfl)
  -- A daemon that is down answers nothing, and changes nothing.
  · have hmemory : memoryFor s r.1 = s.mem := by
      rcases r with ⟨a, o⟩
      cases a with
      | restart => exact absurd rfl ha
      | _ => rfl
    cases hm : s.mem with
    | none =>
      simp only [hmemory, hm] at hstep
      cases hstep
      exact h
    | some m =>
      simp only [hmemory, hm] at hstep
      cases hstep
      rcases ends_call opts h.1 (h.2 m hm) hcareful ha with ⟨strict, hends⟩
      exact sound_leave strict (ends_mono hends fun _ _ hw' => ⟨hw'.disk, fun _ => hw'⟩)

/-- No two devices have one ID, every ID is marked, and no ID of a device is handed
    out. -/
structure Distinct (m : Memory) : Prop where
  injective : ∀ hash hash' i i', m.devices.lookup hash = some i → m.devices.lookup hash' = some i' →
    i.deviceID = i'.deviceID → hash = hash'
  used : ∀ hash i, m.devices.lookup hash = some i → isDeviceIDFree i.deviceID m = false
  next : ∀ id m', nextFree (maxDeviceID + 1) (incNextDeviceID m) = (some id, m') →
    ∀ hash i, m.devices.lookup hash = some i → i.deviceID ≠ id

theorem distinct_of_sound {d : Disk} {m : Memory} (hdisk : DiskOK d) (hfiled : Filed d m)
    (hmarked : Marked d m) : Distinct m := by
  have hused : ∀ hash i, m.devices.lookup hash = some i → m.deviceIDMap.test i.deviceID = true := by
    intro hash i hi
    rcases (hfiled hash i hi).2 with ⟨f, hf, hid⟩
    rw [← hid]
    exact hmarked _ f hf
  refine ⟨fun hash hash' i i' hi hi' heq => ?_, fun hash i hi => ?_,
    fun id m' hnext hash i hi heq => ?_⟩
  · rcases hfiled hash i hi with ⟨hplain, f, hf, hid⟩
    rcases hfiled hash' i' hi' with ⟨hplain', f', hf', hid'⟩
    exact metadataFile_injective hplain hplain'
      (hdisk.distinct _ _ f f' hf hf' (by rw [hid, hid', heq]))
  · rw [isDeviceIDFree, hused hash i hi]
    rfl
  · have hspec := nextFree_spec (maxDeviceID + 1) (incNextDeviceID m) Nat.and_le_right
    rw [hnext] at hspec
    have hfree : m.deviceIDMap.test id = false := hspec.2.2.2.1
    rw [← heq, hused hash i hi] at hfree
    nomatch hfree

/-- In every state that careful steps lead to from an empty pool, the device IDs are
    distinct and marked. -/
theorem run_distinct (opts : Options) (rs : List (Action × Outcomes)) (us : List Unit) (s : State)
    (hmeets : Meets (step opts) Careful rs State.initial)
    (hrun : run (step opts) rs State.initial = .ok (us, s)) (m : Memory) (hm : s.mem = some m) :
    Distinct m := by
  have hinit : Sound State.initial :=
    ⟨⟨nofun, nofun, nofun⟩, nofun⟩
  have hsound := run_invariant_of_meets Careful Sound
    (step_sound opts) rs State.initial s us hinit hmeets hrun
  exact distinct_of_sound hsound.1 (hsound.2 m hm).1 (hsound.2 m hm).2

/-- Every step is done. -/
def allDone : Outcomes := fun _ => []

/-- A crash before the second message to the pool. -/
def secondCrashes : Outcomes
  | .message => [.done, .crashed]
  | _ => []

def someOptions : Options := ⟨false, false, 10⟩

/-- The table after a run: the hashes with their IDs. -/
def table (rs : List (Action × Outcomes)) : Option (List (Str × Nat × Bool)) :=
  (run (step someOptions) rs State.initial).toOption.bind (fun out => out.2.mem.map (fun m =>
    m.devices.entries.map fun e => (e.1, e.2.deviceID, isDeviceIDFree e.2.deviceID m)))

/-- A deletion that crashes before its transaction is closed, and a start that rolls
    it back. -/
def deletedThenRestarted : List (Action × Outcomes) :=
  [(.restart, allDone), (.setupBaseImage, allDone), (.addDevice "a".toList [] 0, allDone),
    (.deleteDevice "a".toList false, secondCrashes), (.restart, allDone),
    (.addDevice "b".toList [] 0, allDone)]

theorem run_distinct_deleted : ∃ us s m,
    run (step someOptions) deletedThenRestarted State.initial = .ok (us, s) ∧ s.mem = some m ∧
      Distinct m := by
  have hok : (run (step someOptions) deletedThenRestarted State.initial).isOk = true := by
    decide +kernel
  have hmeets : Meets (step someOptions) Careful deletedThenRestarted State.initial := by
    decide +kernel
  have hup : (run (step someOptions) deletedThenRestarted State.initial).toOption.map
      (fun out => out.2.mem.isSome) = some true := by decide +kernel
  rcases exists_run hok with ⟨us, s, hrun⟩
  rw [hrun] at hup
  rcases Option.isSome_iff_exists.mp (Option.some.inj hup) with ⟨m, hm⟩
  exact ⟨us, s, m, hrun, hm, run_distinct someOptions deletedThenRestarted us s hmeets hrun m hm⟩

/-- A crash before the transaction of a new device is closed. The restart rolls it
    back and leaves the device in the table with its ID free, and the next device
    gets that ID. -/
theorem rolled_back_shared : table [(.restart, allDone), (.setupBaseImage, allDone),
        (.addDevice "a".toList [] 0, secondCrashes), (.restart, allDone)] =
      some [("".toList, 1, false), ("a".toList, 2, true)] ∧
    table [(.restart, allDone), (.setupBaseImage, allDone),
        (.addDevice "a".toList [] 0, secondCrashes), (.restart, allDone),
        (.addDevice "b".toList [] 0, allDone)] =
      some [("b".toList, 2, false), ("".toList, 1, false), ("a".toList, 2, false)] := by
  decide +kernel

end Runs

end Dao.Devmapper
