import Dao.Core.GraphDriver.Aufs

/-!
# Mounts of AUFS

The count of a mountpoint is positive only with aufs mounted on it, as long as
no mount fails: `Get` counts before it mounts, and does not take the count back.

The calls that `aufsMount` makes list the branches in order, whatever their
number. The first call fits in a page as long as quoting the label does not
make it much longer: the room that is kept for the label is its own length.

## Theorems

* `get_mounted`: What `Get` returns is mounted, after calls whose mounts do not fail.
* `outerLoop_calls`: Two rounds of the loop make all the calls.
* `firstMount_length`: The length of the options of the first call.
* `aufsMount_branches`: The order of the branches, and for which labels they fit.
-/

namespace Dao.Aufs

open Lib Function

variable (parents : Layers)

/-- The layer may have the path. -/
def Own (id : Str) (path : Path) : Prop := path = .mnt id ∨ parents id = [] ∧ path = .diff id

structure Counted (d : Driver) : Prop where
  cached : ∀ id path, d.pathCache.lookup id = some path → Own parents id path
  mounted : ∀ id m, parents id ≠ [] → d.counts.lookup (.mnt id) = some m →
    m.check = true ∧ (0 < m.count → d.mounted (.mnt id) = true)

/-- The answer of `Get`: a layer with parents is mounted, and an error leaves the counts. -/
def Sound (id : Str) (d : Driver) (out : Except GetError Path × Driver) : Prop :=
  (∀ path, out.1 = .ok path → parents id ≠ [] → path = .mnt id ∧ out.2.mounted path = true) ∧
  ∀ e, out.1 = .error e → out.2.counts = d.counts

variable {parents} {d : Driver} (h : Counted parents d) {id : Str} {path : Path} {n : Int}
include h

theorem own_getD (hpath : Own parents id path) :
    Own parents id ((d.pathCache.lookup id).getD path) := by
  cases hid : d.pathCache.lookup id with
  | none => exact hpath
  | some p => exact h.cached id p hid

theorem mounted_of_counted (hne : parents id ≠ []) (hn : n < (d.counted n (.mnt id)).1) :
    d.mounted (.mnt id) = true := by
  simp only [Driver.counted] at hn
  cases hm : d.counts.lookup (.mnt id) with
  | none =>
    rw [hm] at hn
    by_contra hno
    simp [hno] at hn
  | some m =>
    rcases h.mounted id m hne hm with ⟨hcheck, hpos⟩
    simp only [hm, Option.getD_some, hcheck, Bool.not_true, Bool.false_and] at hn
    exact hpos (by simpa using hn)

theorem counted_step (hown : Own parents id path) {cache : AMap Str Path}
    (hcache : cache = d.pathCache ∨ cache = d.pathCache.insert id path) {mounted : Path → Bool}
    (hother : ∀ p, p ≠ path → mounted p = d.mounted p)
    (hpath : parents id ≠ [] → path = .mnt id → 0 < (d.counted n path).1 → mounted path = true) :
    Counted parents ⟨(d.counted n path).2.counts, cache, mounted⟩ := by
  refine ⟨fun id' p hp => ?_, fun id' m hne hm => ?_⟩
  · rcases hcache with rfl | rfl
    · exact h.cached id' p hp
    · rcases AMap.lookup_insert_cases hp with ⟨_, hold⟩ | ⟨rfl, rfl⟩
      · exact h.cached id' p hold
      · exact hown
  · rcases AMap.lookup_insert_cases hm with ⟨hother', hold⟩ | ⟨rfl, rfl⟩
    · rcases h.mounted id' m hne hold with ⟨hcheck, hpos⟩
      exact ⟨hcheck, fun hm => (hother _ hother').trans (hpos hm)⟩
    rcases hown with hmnt | ⟨_, hdiff⟩
    · cases hmnt
      exact ⟨rfl, hpath hne rfl⟩
    · nomatch hdiff

variable (id)

theorem counted_get (unread : Bool) : Counted parents (get parents id unread false d).2 ∧
    Sound parents id d (get parents id unread false d) := by
  have hown : Own parents id ((d.pathCache.lookup id).getD
      (if parents id = [] then .diff id else .mnt id)) := by
    refine own_getD h ?_
    split
    · next hnil => exact .inr ⟨hnil, rfl⟩
    · exact .inl rfl
  unfold get
  split
  · exact ⟨h, nofun, fun _ _ => rfl⟩
  simp only
  generalize (d.pathCache.lookup id).getD _ = m at hown ⊢
  have hmnt : parents id ≠ [] → m = .mnt id := fun hne => hown.resolve_right fun hc => hne hc.1
  split
  · next hmany =>
    -- Another call is counted, and so is its mount.
    have hmounted : parents id ≠ [] → m = .mnt id → d.mounted m = true := by
      rintro hne rfl
      exact mounted_of_counted h hne hmany
    refine ⟨counted_step h hown (.inl rfl) (fun _ _ => rfl) fun hne hm _ => hmounted hne hm,
      fun _ hok hne => ?_, nofun⟩
    exact Except.ok.inj hok ▸ ⟨hmnt hne, hmounted hne (hmnt hne)⟩
  · split
    · next hnil =>
      exact ⟨counted_step h hown (.inr rfl) (fun _ _ => rfl) (absurd hnil),
        fun _ _ hne => absurd hnil hne, nofun⟩
    · exact ⟨counted_step h hown (.inr rfl) (fun _ hne => update_of_ne hne _ _)
        (fun _ _ _ => update_self ..),
        fun _ hok hne => Except.ok.inj hok ▸ ⟨hmnt hne, update_self ..⟩, nofun⟩

theorem counted_put (fails : Bool) : Counted parents (put id fails d) := by
  have hown : Own parents id ((d.pathCache.lookup id).getD (.mnt id)) := own_getD h (.inl rfl)
  unfold put
  simp only
  generalize (d.pathCache.lookup id).getD _ = m at hown ⊢
  split
  · refine counted_step h hown (.inr rfl) (fun _ _ => rfl) ?_
    rintro hne rfl hpos
    exact mounted_of_counted h hne (Int.lt_trans (by decide : (-1 : Int) < 0) hpos)
  · next hfew =>
    exact counted_step h hown (.inr rfl) (fun _ hne => update_of_ne hne _ _)
      (fun _ _ hpos => absurd (.inl hpos) hfew)

omit h

/-- After calls none of whose mounts fails, the next `Get` whose mount does not fail
    has a sound answer. -/
theorem get_mounted (mounted : Path → Bool) (as : List Action)
    (hmounts : ∀ a ∈ as, ∀ id unread, a ≠ .get id unread true) (unread : Bool) :
    let d := as.foldl (step parents) (.new mounted)
    Sound parents id d (get parents id unread false d) := by
  refine (counted_get (List.foldlRecOn as (step parents) ?_ ?_) id unread).2
  · exact ⟨nofun, nofun⟩
  intro d h a ha
  cases a with
  | put id' fails => exact counted_put h id' fails
  | get id' unread' fails =>
    cases fails with
    | false => exact (counted_get h id' unread').1
    | true => exact absurd rfl (hmounts _ ha id' unread')

theorem get_mounted_again :
    let d := [.get ['a'] false false, .put ['a'] false].foldl (step (fun _ => [['b']]))
      (.new fun _ => false)
    Sound (fun _ => [['b']]) ['a'] d (get (fun _ => [['b']]) ['a'] false false d) :=
  get_mounted ['a'] (fun _ => false) _ (by simp) false

/-- A mount that fails stays counted: the next `Get` returns a directory on which
    nothing is mounted. -/
theorem counted_unmounted :
    let d := Driver.new (fun _ => false)
    let failed := get (fun _ => [['b']]) ['a'] false true d
    let again := get (fun _ => [['b']]) ['a'] false false failed.2
    failed.1 = .error .mount ∧ d.counts.lookup (.mnt ['a']) = none ∧
      failed.2.counts.lookup (.mnt ['a']) = some ⟨true, 1⟩ ∧ again.1 = .ok (.mnt ['a']) ∧
      again.2.mounted (.mnt ['a']) = false := by
  decide

open List

variable (env : Env) (mountLabel : Bytes) (size : Nat)

theorem innerLoop_first (ro : List Bytes) (made : List Mount) : ∀ b : Bytes, ∃ k,
    innerLoop env mountLabel size true b ro made =
      .ok (b ++ (ro.take k).flatMap layer, ro.drop k, made) ∧
    (b.length ≤ size → (b ++ (ro.take k).flatMap layer).length ≤ size) := by
  induction ro with
  | nil => exact fun b => ⟨0, by simp [innerLoop], by simp⟩
  | cons r ro ih =>
    intro b
    unfold innerLoop
    by_cases hfull : b.length + (layer r).length > size
    · exact ⟨0, by simp [hfull], by simp⟩
    rcases ih (b ++ layer r) with ⟨k, hloop, hsize⟩
    rw [length_append] at hsize
    refine ⟨k + 1, by simp [hfull, hloop], fun _ => ?_⟩
    simpa using hsize (by omega)

theorem mount_ok {m : Mount} {made out : List Mount} (h : mount env m made = .ok out) :
    out = made ++ [m] := by
  unfold mount at h
  split at h
  · nomatch h
  · cases h
    rfl

theorem innerLoop_append (b : Bytes) (ro : List Bytes) :
    ∀ made out, innerLoop env mountLabel size false b ro made = .ok out →
      out = (b, [], made ++ ro.map (appendMount env mountLabel)) := by
  induction ro with
  | nil =>
    intro made out h
    cases h
    simp
  | cons r ro ih =>
    intro made out h
    simp only [innerLoop, Bool.false_eq_true, if_false] at h
    rcases hmount : mount env (appendMount env mountLabel r) made with e | _
    · simp [hmount] at h
    rw [hmount] at h
    rw [ih _ out h, mount_ok env hmount, append_assoc]
    rfl

/-- The calls with `k` layers in the first one. -/
def calls (rw : Bytes) (ro : List Bytes) (k : Nat) : List Mount :=
  firstMount env mountLabel (rwBranch rw ++ (ro.take k).flatMap layer) ::
    (ro.drop k).map (appendMount env mountLabel)

/-- Two rounds are enough. -/
theorem outerLoop_calls (rw : Bytes) (ro : List Bytes) (hrw : (rwBranch rw).length ≤ size) :
    ∃ r, (∀ n, outerLoop env mountLabel size (n + 2) true (rwBranch rw) ro [] = some r) ∧
      ∀ made, r = .ok made → ∃ k, made = calls env mountLabel rw ro k ∧
        (rwBranch rw ++ (ro.take k).flatMap layer).length ≤ size := by
  rcases innerLoop_first env mountLabel size ro [] (rwBranch rw) with ⟨k, hfirst, hsize⟩
  simp only [outerLoop, hfirst, if_true, Bool.false_eq_true, if_false]
  cases hmount : mount env (firstMount env mountLabel _) [] with
  | error e => exact ⟨.error e, fun _ => rfl, nofun⟩
  | ok made =>
    have hcalls : made ++ (ro.drop k).map (appendMount env mountLabel) =
        calls env mountLabel rw ro k := by
      rw [mount_ok env hmount]
      rfl
    by_cases hrest : ro.drop k = []
    · rw [hrest, map_nil, append_nil] at hcalls
      refine ⟨.ok made, fun _ => if_pos hrest, fun _ hok => ⟨k, ?_, hsize hrw⟩⟩
      rw [← Except.ok.inj hok, hcalls]
    simp only [if_neg hrest]
    cases hloop : innerLoop env mountLabel size false _ (ro.drop k) made with
    | error e => exact ⟨.error e, fun _ => rfl, nofun⟩
    | ok out =>
      rw [innerLoop_append env mountLabel size _ _ made out hloop, hcalls]
      exact ⟨_, fun _ => rfl, fun _ hok => ⟨k, (Except.ok.inj hok).symm, hsize hrw⟩⟩

/-- The bytes that are left to quote a label in the room that is kept for it. -/
def slack (useDirperm : Bool) : Nat := if useDirperm then 16 else 17

theorem opts_length : (opts env).length + 10 + slack env.useDirperm = offset env := by
  unfold opts offset slack
  cases env.useDirperm with
  | false | true => decide

theorem firstMount_length (b : Bytes) :
    (firstMount env mountLabel b).data.length = b.length + 1 + (opts env).length +
      if mountLabel = [] then 0 else 9 + (env.quote mountLabel).length := by
  have hcomma : (ascii ",").length = 1 := rfl
  have hcontext : (ascii ",context=").length = 9 := rfl
  have hne : b ++ ascii "," ++ opts env ≠ [] := by
    rw [append_assoc]
    exact append_ne_nil_of_right_ne_nil b (cons_ne_nil _ _)
  unfold firstMount formatMountLabel
  rw [if_neg hne]
  split_ifs
  · simp only [length_append]
    omega
  · simp only [length_append]
    omega

theorem rwBranch_length (rw : Bytes) : (rwBranch rw).length = rw.length + 6 := by
  have hbr : (ascii "br:").length = 3 := rfl
  have hrw : (ascii "=rw").length = 3 := rfl
  simp only [rwBranch, length_append]
  omega

theorem layer_length (ro : Bytes) : (layer ro).length = ro.length + 7 := by
  have hcolon : (ascii ":").length = 1 := rfl
  have hro : (ascii "=ro+wh").length = 6 := rfl
  simp only [layer, length_append]
  omega

theorem appendMount_length (hne : mountLabel ≠ []) (ro : Bytes) :
    (appendMount env mountLabel ro).data.length =
      ro.length + 22 + (env.quote mountLabel).length := by
  have happend : (ascii "append").length = 6 := rfl
  have hcontext : (ascii ",context=").length = 9 := rfl
  have hsrc : ascii "append" ++ layer ro ≠ [] :=
    append_ne_nil_of_left_ne_nil (cons_ne_nil _ _) _
  unfold appendMount formatMountLabel
  rw [if_neg hne, if_neg hsrc]
  simp only [length_append, layer_length]
  omega

/-- The read-write branch and the label have room in the first page. -/
def HasRoom (rw : Bytes) : Prop :=
  (rwBranch rw).length + mountLabel.length + offset env ≤ env.pageSize

/-- They fit in the first page alone, and then no call is longer than a page if no
    single appended option is. -/
def CallsFit (rw : Bytes) (ro : List Bytes) : Prop :=
  HasRoom env mountLabel rw →
    (firstMount env mountLabel (rwBranch rw)).data.length ≤ env.pageSize →
    (∀ r ∈ ro, (appendMount env mountLabel r).data.length ≤ env.pageSize) →
    ∀ made, aufsMount env mountLabel 2 ro rw = some (.ok made) →
      ∀ m ∈ made, m.data.length ≤ env.pageSize

theorem aufsMount_calls (ro : List Bytes) (rw : Bytes) (hroom : HasRoom env mountLabel rw) :
    ∃ r, (∀ n, aufsMount env mountLabel (n + 2) ro rw = some r) ∧
      ∀ made, r = .ok made → ∃ k, made = calls env mountLabel rw ro k ∧
        (rwBranch rw ++ (ro.take k).flatMap layer).length + mountLabel.length + offset env ≤
          env.pageSize := by
  unfold HasRoom at hroom
  obtain ⟨r, hrun, hcalls⟩ := outerLoop_calls env mountLabel
    (env.pageSize - mountLabel.length - offset env) rw ro (by omega)
  refine ⟨r, fun n => ?_, fun made hmade => ?_⟩
  · unfold aufsMount
    rw [if_neg (by omega), take_of_length_le (by omega)]
    exact hrun n
  · obtain ⟨k, hk, hsize⟩ := hcalls made hmade
    exact ⟨k, hk, by omega⟩

/-- The room is enough for a label that is quoted with little. -/
theorem calls_fit (ro : List Bytes) (rw : Bytes)
    (hquote : mountLabel = [] ∨
      (env.quote mountLabel).length ≤ mountLabel.length + slack env.useDirperm) :
    CallsFit env mountLabel rw ro := by
  intro hroom _ happend made hmade
  obtain ⟨r, hrun, hcalls⟩ := aufsMount_calls env mountLabel ro rw hroom
  obtain ⟨k, rfl, hsize⟩ := hcalls made (Option.some.inj ((hrun 0).symm.trans hmade))
  refine forall_mem_cons.mpr ⟨?_, fun m hm => ?_⟩
  · have hopts := opts_length env
    rw [firstMount_length]
    rcases hquote with hnil | hquote
    · rw [if_pos hnil]
      omega
    · split_ifs
      · omega
      · omega
  · obtain ⟨r, hr, rfl⟩ := mem_map.mp hm
    exact happend r (mem_of_mem_drop hr)

/-- A page that one layer fills up to the room that is kept for the label. -/
def fullPage (useDirperm : Bool) (quote : Bytes → Bytes) : Env :=
  let env : Env := ⟨0, useDirperm, quote, fun _ => false⟩
  { env with pageSize := 2 * (quote mountLabel).length + 13 + mountLabel.length + offset env }

/-- It is too full for a label that takes more when it is quoted. -/
theorem fullPage_overflows (useDirperm : Bool) (quote : Bytes → Bytes) (hne : mountLabel ≠ [])
    (hquote : mountLabel.length + slack useDirperm < (quote mountLabel).length) :
    let path := replicate (quote mountLabel).length 97
    ¬CallsFit (fullPage mountLabel useDirperm quote) mountLabel path [path] := by
  intro path hfit
  have hpath : path.length = (quote mountLabel).length := length_replicate
  have hrw := rwBranch_length path
  have hlayer := layer_length path
  generalize henv : fullPage mountLabel useDirperm quote = env at hfit
  have hpage : env.pageSize =
      2 * (quote mountLabel).length + 13 + mountLabel.length + offset env := by
    rw [← henv]
    rfl
  have hq : env.quote = quote := by rw [← henv, fullPage]
  have hopts := opts_length env
  rw [show env.useDirperm = useDirperm by rw [← henv, fullPage]] at hopts
  -- The one call has the layer in it, and it is longer than the page.
  have hcall : aufsMount env mountLabel 2 [path] path =
      some (.ok [firstMount env mountLabel (rwBranch path ++ layer path)]) := by
    have hmount : env.fails = fun _ => false := by rw [← henv, fullPage]
    unfold aufsMount
    rw [if_neg (by omega), take_of_length_le (by omega)]
    have hfull : ¬(env.pageSize - mountLabel.length - offset env <
        (rwBranch path).length + (layer path).length) := by omega
    simp [outerLoop, innerLoop, mount, hmount, hfull]
  have hlong := hfit (by unfold HasRoom; omega) ?_ ?_ _ hcall _ mem_cons_self
  · rw [firstMount_length, if_neg hne, length_append, hq] at hlong
    omega
  · rw [firstMount_length, if_neg hne, hq]
    omega
  · intro r hr
    have hoffset : 54 ≤ offset env := Nat.le_add_right _ _
    rw [mem_singleton.mp hr, appendMount_length env mountLabel hne, hq]
    omega

/-- The branches are listed once and in order. All calls fit in a page, for every page
    and all paths, just if quoting the label takes no more than the room that is left. -/
theorem aufsMount_branches (useDirperm : Bool) (quote : Bytes → Bytes) :
    (∀ pageSize fails ro rw, HasRoom ⟨pageSize, useDirperm, quote, fails⟩ mountLabel rw →
      ∃ r, (∀ n, aufsMount ⟨pageSize, useDirperm, quote, fails⟩ mountLabel (n + 2) ro rw = some r) ∧
        ∀ made, r = .ok made →
          ∃ k, made = calls ⟨pageSize, useDirperm, quote, fails⟩ mountLabel rw ro k) ∧
    ((∀ pageSize fails ro rw, CallsFit ⟨pageSize, useDirperm, quote, fails⟩ mountLabel rw ro) ↔
      mountLabel = [] ∨
        (quote mountLabel).length ≤ mountLabel.length + slack useDirperm) := by
  refine ⟨fun pageSize fails ro rw hroom => ?_, fun hfit => ?_,
    fun hquote pageSize fails ro rw => calls_fit _ mountLabel ro rw hquote⟩
  · obtain ⟨r, hrun, hcalls⟩ := aufsMount_calls _ mountLabel ro rw hroom
    exact ⟨r, hrun, fun made hmade => (hcalls made hmade).imp fun _ hk => hk.1⟩
  · by_contra hquote
    rw [not_or, Nat.not_le] at hquote
    exact fullPage_overflows mountLabel useDirperm quote hquote.1 hquote.2 (hfit _ _ _ _)

/-- `%q` of printable ASCII. -/
def quoteASCII (s : Bytes) : Bytes :=
  34 :: s.flatMap (fun c => if c = 34 ∨ c = 92 then [92, c] else [c]) ++ [34]

/-- A label of 20 quotation marks takes 42 bytes when it is quoted, and a layer takes
    the room that they need. -/
theorem quoted_label_clipped :
    let env : Env := ⟨4096, false, quoteASCII, fun _ => false⟩
    let mountLabel := replicate 20 34
    let ro := replicate 4007 97
    (firstMount env mountLabel (rwBranch (ascii "/c"))).data.length = 87 ∧
      (appendMount env mountLabel ro).data.length = 4071 ∧
      (aufsMount env mountLabel 2 [ro] (ascii "/c")).map (fun r =>
        r.toOption.map fun made => made.map (fun m => m.data.length)) = some (some [4101]) := by
  decide +kernel

end Dao.Aufs
