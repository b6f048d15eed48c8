import Rbsrt.StreamID.Operations

/-!
# Host and path

A host may come with a path, `stream.recce.nl/my/movie.ts`. `set` takes the part before the first
slash as the host and, if there is no resource name, the part after it as that. The part before is
`val[0..(sep - 1)]`, which for a slash in the first place is `val[0..-1]`, all of the value: a path
without a host becomes a host with a slash.

## Main results

* `splitHost_eq_hostSpec_iff` — when a host is split where it should be
* `hostClean_run` — in which runs no host has a slash
* `hostsSplit_iff` — both, in terms of the values that are given
-/

namespace Rbsrt

open Backtrack Runs

namespace StreamIDComponents

variable {c : StreamIDComponents} {v : RString}

/-! ### The two parts of a value -/

theorem takeWhile_host {a b : RString} (ha : '/' ∉ a) :
    (a ++ '/' :: b).takeWhile (· ≠ '/') = a := by
  have hall : ∀ d ∈ a, decide (d ≠ '/') = true := fun d hd => by
    have hne : d ≠ '/' := fun heq => ha (heq ▸ hd)
    simpa using hne
  rw [List.takeWhile_append_of_pos hall]
  simp

theorem head?_host {a b : RString} (ha : '/' ∉ a) :
    (a ++ '/' :: b).head? = some '/' ↔ a = [] := by
  cases a with
  | nil => simp
  | cons d a =>
    have hd : d ≠ '/' := fun heq => ha (by simp [heq])
    simp [hd]

theorem tail_dropWhile_host {a b : RString} (ha : '/' ∉ a) :
    ((a ++ '/' :: b).dropWhile (· ≠ '/')).tail = b := by
  have hall : ∀ d ∈ a, decide (d ≠ '/') = true := fun d hd => by
    have hne : d ≠ '/' := fun heq => ha (heq ▸ hd)
    simpa using hne
  rw [List.dropWhile_append_of_pos hall]
  simp

/-- What setting a host is meant to do: the part before the first slash is the host, the part after
it is the resource if there is none. -/
def hostSpec (c : StreamIDComponents) (v : RString) : StreamIDComponents :=
  { c with
    hostName := .str (v.takeWhile (· ≠ '/'))
    resourceName :=
      if '/' ∈ v ∧ c.resourceName = .nil then .str (v.dropWhile (· ≠ '/')).tail
      else c.resourceName }

/-- **The split** is the one that is meant unless the slash comes first. -/
theorem splitHost_eq_hostSpec_iff : c.splitHost v = c.hostSpec v ↔ v.head? ≠ some '/' := by
  rw [hostSpec]
  rcases exists_cut v '/' with hslash | ⟨a, b, rfl, ha⟩
  · have hall : v.takeWhile (· ≠ '/') = v := by
      refine List.takeWhile_eq_self_iff.mpr fun d hd => ?_
      have hne : d ≠ '/' := fun heq => hslash (heq ▸ hd)
      simpa using hne
    have hhead : v.head? ≠ some '/' := fun h => hslash (List.mem_of_mem_head? h)
    rw [splitHost_of_not_mem hslash, hall, if_neg fun h => hslash h.1]
    exact iff_of_true rfl hhead
  · have hmem : '/' ∈ a ++ '/' :: b := by simp
    have hres : (if c.resourceName.truthy then c.resourceName else .str b) =
        if '/' ∈ a ++ '/' :: b ∧ c.resourceName = .nil then .str b else c.resourceName := by
      by_cases hnil : c.resourceName = .nil
      · rw [if_neg (by simp [hnil]), if_pos ⟨hmem, hnil⟩]
      · rw [if_pos (Value.truthy_iff.mpr hnil), if_neg fun h => hnil h.2]
    rw [splitHost_append ha, takeWhile_host ha, tail_dropWhile_host ha, hres, ne_eq, head?_host ha]
    constructor
    · intro h hnil
      have hhost := congrArg hostName h
      simp [hnil] at hhost
    · intro hne
      rw [if_neg hne]

theorem set_host_eq {key : Key} (hkey : Field.ofName key.toS = some .hostName) (v : RString) :
    c.set key (.str v) = .ok (c.splitHost v) := by
  rw [set, hkey]
  rfl

/-! ### Hosts without a slash -/

/-- There is no host, or it has no slash. -/
def HostClean (c : StreamIDComponents) : Prop := '/' ∉ c.hostName.toS

instance (c : StreamIDComponents) : Decidable c.HostClean := inferInstanceAs (Decidable (_ ∉ _))

/-- A value given for the host does not begin with a slash. -/
def NoSlashFirst (p : Key × Value) : Prop :=
  Field.ofName p.1.toS = some .hostName → p.2.toS.head? ≠ some '/'

theorem HostClean.splitHost (h : v.head? ≠ some '/') : (c.splitHost v).HostClean := by
  rw [splitHost_eq_hostSpec_iff.mpr h]
  intro hmem
  simpa using List.mem_takeWhile_imp hmem

theorem HostClean.setValue (h : c.HostClean) {p : Key × Value} (hp : NoSlashFirst p) :
    (c.setValue p).HostClean := by
  rw [StreamIDComponents.setValue]
  rcases hname : Field.ofName p.1.toS with _ | f
  · exact h
  · cases f with
    | mode =>
      by_cases hm : p.2.toS ∈ modes
      · simp only [if_pos hm]
        exact h
      · simp only [if_neg hm]
        exact h
    | hostName => exact HostClean.splitHost (hp hname)
    | type =>
      by_cases ht : p.2.toS ∈ types
      · simp only [if_pos ht]
        exact h
      · simp only [if_neg ht]
        exact h
    | _ => exact h

theorem HostClean.foldl (h : c.HostClean) {ps : List (Key × Value)}
    (hps : ∀ p ∈ ps, NoSlashFirst p) : (ps.foldl StreamIDComponents.setValue c).HostClean := by
  induction ps generalizing c with
  | nil => exact h
  | cons p ps ih =>
    exact ih (h.setValue (hps p (by simp))) fun q hq => hps q (List.mem_cons_of_mem p hq)

/-! ### Runs -/

/-- The pairs a constructor call sets. -/
def Arg.pairs (lib : URILib) (arg : Arg) : List (Key × Value) :=
  match arg.start lib with
  | .ok (_, ps) => ps
  | .error _ => []

/-- The pairs that are set by the constructor and then by operations. -/
def given (lib : URILib) (arg : Arg) (ops : List Op) : List (Key × Value) :=
  arg.pairs lib ++ ops.flatMap Op.pairs

/-- `set`, `merge_str!` or `merge_hash!` with String values. -/
def Op.SetsStrings : Op → Prop
  | .write _ _ => False
  | op => ∀ p ∈ op.pairs, ∃ s, p.2 = .str s

theorem HostClean.start {lib : URILib} (hlib : PlainHostnames lib) {arg : Arg}
    {d : StreamIDComponents} {ps : List (Key × Value)} (h : arg.start lib = .ok (d, ps)) :
    d.HostClean := by
  have hfresh : fresh.HostClean := by decide
  cases arg with
  | hash hash =>
    obtain ⟨rfl, -⟩ := Prod.mk.inj (Except.ok.inj h)
    exact hfresh
  | value v =>
    rcases (start_value h).1 with rfl | ⟨uri, huri, rfl⟩ | rfl
    · exact hfresh
    · show '/' ∉ (Value.ofSlice uri.hostname).toS
      rcases hhost : uri.hostname with _ | host
      · simp
      · exact hlib _ uri host huri hhost
    · exact hfresh

theorem HostClean.apply (h : c.HostClean) {op : Op} (hop : op.SetsStrings)
    (hps : ∀ p ∈ op.pairs, NoSlashFirst p) : (c.apply op).HostClean := by
  have hsteps : op.steps = (settable op.pairs).map Step.set := by
    cases op with
    | write name val => exact hop.elim
    | _ => rfl
  rw [apply_eq_exec, hsteps, exec_set]
  exact h.foldl fun p hp => hps p ((List.takeWhile_sublist _).subset hp)

/-- **In which runs no host has a slash.** -/
theorem hostClean_run {lib : URILib} (hlib : PlainHostnames lib) {arg : Arg} {ops : List Op}
    (hops : ∀ op ∈ ops, op.SetsStrings) (hnew : new lib arg = .ok c)
    (hgiven : ∀ p ∈ given lib arg ops, NoSlashFirst p) :
    ∀ t ∈ c :: states StreamIDComponents.apply c ops, t.HostClean := by
  obtain ⟨d, ps, hstart, -, rfl⟩ := exists_start hnew
  have hpairs : arg.pairs lib = ps := by rw [Arg.pairs, hstart]
  rw [given, hpairs] at hgiven
  have hc : (ps.foldl StreamIDComponents.setValue d).HostClean :=
    (HostClean.start hlib hstart).foldl fun p hp => hgiven p (List.mem_append_left _ hp)
  refine List.forall_mem_cons.mpr ⟨hc, ?_⟩
  refine forall_mem_states
    (A := fun _ op => op.SetsStrings ∧ ∀ p ∈ op.pairs, NoSlashFirst p)
    (fun t op ht hop => ht.apply hop.1 hop.2) hc (along_const.mpr fun op hop => ⟨hops op hop, ?_⟩)
  exact fun p hp => hgiven p (List.mem_append_right _ (List.mem_flatMap.mpr ⟨op, hop, hp⟩))

/-- Whatever is given for a host is a String. -/
theorem exists_str_of_given {lib : URILib} {arg : Arg} {ops : List Op}
    (hops : ∀ op ∈ ops, op.SetsStrings) (hnew : new lib arg = .ok c) {p : Key × Value}
    (hp : p ∈ given lib arg ops) (hname : Field.ofName p.1.toS = some .hostName) :
    ∃ v, p.2 = .str v := by
  rcases List.mem_append.mp hp with hp | hp
  · obtain ⟨d, ps, hstart, hps, -⟩ := exists_start hnew
    rw [Arg.pairs, hstart] at hp
    exact hps p hp hname
  · obtain ⟨op, hop, hp⟩ := List.mem_flatMap.mp hp
    have hstrings := hops op hop
    cases op with
    | write name val => exact hstrings.elim
    | _ => exact hstrings p hp

/-- No object of a run has a host with a slash, and every host that is given is split as it is
meant to be, in whatever state it is set. -/
def HostsSplit (lib : URILib) (arg : Arg) (c : StreamIDComponents) (ops : List Op) : Prop :=
  (∀ t ∈ c :: states apply c ops, t.HostClean) ∧
    ∀ p ∈ given lib arg ops, Field.ofName p.1.toS = some .hostName →
      ∀ d : StreamIDComponents, d.set p.1 p.2 = .ok (d.hostSpec p.2.toS)

/-- **Which hosts are split.** All of them, and no host is left with a slash, exactly if none that
is given begins with one. -/
theorem hostsSplit_iff {lib : URILib} (hlib : PlainHostnames lib) {arg : Arg} {ops : List Op}
    (hops : ∀ op ∈ ops, op.SetsStrings) (hnew : new lib arg = .ok c) :
    HostsSplit lib arg c ops ↔ ∀ p ∈ given lib arg ops, NoSlashFirst p := by
  constructor
  · rintro ⟨-, hsplit⟩ p hp hname
    obtain ⟨v, hv⟩ := exists_str_of_given hops hnew hp hname
    have hset := hsplit p hp hname c
    rw [hv, set_host_eq hname, Except.ok.injEq, Value.toS_str, splitHost_eq_hostSpec_iff] at hset
    rwa [hv, Value.toS_str]
  · intro hgiven
    refine ⟨hostClean_run hlib hops hnew hgiven, fun p hp hname d => ?_⟩
    obtain ⟨v, hv⟩ := exists_str_of_given hops hnew hp hname
    have hfirst := hgiven p hp hname
    rw [hv, Value.toS_str] at hfirst
    rw [hv, set_host_eq hname, Value.toS_str, splitHost_eq_hostSpec_iff.mpr hfirst]

/-- A host with a path, and then another one. -/
theorem hostsSplit_movie :
    HostsSplit noURILib (.value (.str "#!::h=recce.nl/movie.ts".toList))
      { fresh with
        hostName := .str "recce.nl".toList
        resourceName := .str "movie.ts".toList }
      [.set (.sym "host_name".toList) (.str "srt.nl/live".toList)] := by
  refine (hostsSplit_iff (fun _ _ _ huri _ => by cases huri) ?_ (by decide)).mpr ?_
  · refine List.forall_mem_singleton.mpr ?_
    exact List.forall_mem_singleton.mpr ⟨_, rfl⟩
  · have hgiven : given noURILib (.value (.str "#!::h=recce.nl/movie.ts".toList))
        [.set (.sym "host_name".toList) (.str "srt.nl/live".toList)] =
        [(.str "h".toList, .str "recce.nl/movie.ts".toList),
          (.sym "host_name".toList, .str "srt.nl/live".toList)] := by decide
    rw [hgiven]
    exact List.forall_mem_cons.mpr
      ⟨fun _ => by decide, List.forall_mem_singleton.mpr fun _ => by decide⟩

/-- What a host that begins with a slash leaves. -/
def slashHost : StreamIDComponents :=
  { fresh with
    hostName := .str "/live".toList
    resourceName := .str "live".toList }

/-- A path without a host becomes a host with a slash. -/
theorem not_hostsSplit_slash :
    new noURILib (.value (.str "#!::h=/live".toList)) = .ok slashHost ∧
      ¬ HostsSplit noURILib (.value (.str "#!::h=/live".toList)) slashHost [] := by
  refine ⟨by decide, ?_⟩
  rintro ⟨hclean, -⟩
  exact absurd (hclean slashHost (by simp)) (by decide)

end StreamIDComponents

end Rbsrt
