import InternetApplications.Labs.Echo
import InternetApplications.Library.OpenFile

namespace InternetApplications.Labs

open ByteMemory Executions OpenFiles

inductive CopyStage
  | toRead
  | toWrite (byte : UInt8)
  | closed

inductive GreetStage
  | toGreet
  | toRewind
  | toRead
  | toPrint (s : Memory)
  | toRewindAgain
  | toSign
  | closed

inductive Process (κ : Type)
  | copier (fd1 fd2 : Description κ) (stage : CopyStage)
  | greeter (fd1 : Description κ) (s : Memory) (stage : GreetStage)

inductive Effect
  | wrote (bytes : List UInt8)
  | usingAppend (offset : ℕ)
  | string (text : List UInt8)
  | none

def Effect.bytes : Effect → List UInt8
  | wrote bytes => bytes
  | _ => []

def hiiii : List UInt8 := [72, 105, 105, 105, 105]

def abbbb : List UInt8 := [65, 98, 98, 98, 98]

def sizeofS : ℕ := 50

namespace Process

variable {κ : Type} [DecidableEq κ]

def step (store : Store κ) : Process κ → Except Stop (Store κ × Process κ × Effect)
  | copier fd1 fd2 .toRead =>
    match fd2.read store 1 with
    | (byte :: _, fd2) => .ok (store, copier fd1 fd2 (.toWrite byte), .none)
    | ([], fd2) => .ok (store, copier fd1 fd2 .closed, .none)
  | copier fd1 fd2 (.toWrite byte) =>
    let (store, fd1) := fd1.write store [byte]
    .ok (store, copier fd1 fd2 .toRead, .wrote [byte])
  | greeter fd1 s .toGreet =>
    let (store, fd1) := fd1.write store hiiii
    .ok (store, greeter fd1 s .toRewind, .wrote hiiii)
  | greeter fd1 s .toRewind =>
    let fd1 := fd1.seek 0
    .ok (store, greeter fd1 s .toRead, .usingAppend fd1.position)
  | greeter fd1 s .toRead =>
    let (bytes, fd1) := fd1.read store sizeofS
    .ok (store, greeter fd1 s (.toPrint (write s 0 bytes)), .none)
  | greeter fd1 s (.toPrint text) =>
    match stringEnd text sizeofS with
    | some n => .ok (store, greeter fd1 s .toRewindAgain, .string (read text 0 n))
    | none => .error (.fault .outOfBounds)
  | greeter fd1 s .toRewindAgain => .ok (store, greeter (fd1.seek 0) s .toSign, .none)
  | greeter fd1 s .toSign =>
    let (store, fd1) := fd1.write store abbbb
    .ok (store, greeter fd1 s .closed, .wrote abbbb)
  | copier _ _ .closed | greeter _ _ .closed => .error .disabled

def Closed : Process κ → Prop
  | copier _ _ .closed | greeter _ _ .closed => True
  | _ => False

end Process

structure Machine (ι κ : Type) where
  store : Store κ
  process : ι → Process κ

def Machine.step {ι κ : Type} [DecidableEq ι] [DecidableEq κ] (s : Machine ι κ) (i : ι) :
    Except Stop (Machine ι κ × Effect) :=
  match (s.process i).step s.store with
  | .error e => .error e
  | .ok (store, p, effect) => .ok (⟨store, Function.update s.process i p⟩, effect)

/-- The programs of the fourth lab. The array that is read into starts with any bytes. -/
inductive Program
  | copy
  | greet (s : Memory)

def Program.opened {κ : Type} (test1 test2 : κ) : Program → Process κ
  | copy => .copier ⟨test1, 0, true⟩ ⟨test2, 0, false⟩ .toRead
  | greet s => .greeter ⟨test1, 0, true⟩ s .toGreet

def Program.total (content : List UInt8) : Program → List UInt8
  | copy => content
  | greet _ => hiiii ++ abbbb

namespace Process

variable {κ : Type} {test1 test2 : κ} {content : List UInt8}

def written (content : List UInt8) : Process κ → List UInt8
  | copier _ fd2 .toRead => content.take fd2.position
  | copier _ fd2 (.toWrite _) => content.take (fd2.position - 1)
  | copier _ _ .closed => content
  | greeter _ _ .toGreet => []
  | greeter _ _ .closed => hiiii ++ abbbb
  | greeter _ _ _ => hiiii

def total (content : List UInt8) : Process κ → List UInt8
  | copier _ _ _ => content
  | greeter _ _ _ => hiiii ++ abbbb

/-- The descriptors are those of the two files, and a byte that has been read is the last one
before the position. -/
def Proper (test1 test2 : κ) (content : List UInt8) : Process κ → Prop
  | copier fd1 fd2 stage => fd1.file = test1 ∧ fd1.appending ∧ fd2.file = test2 ∧
    match stage with
    | .toWrite byte => 0 < fd2.position ∧ content[fd2.position - 1]? = some byte
    | _ => True
  | greeter fd1 _ _ => fd1.file = test1 ∧ fd1.appending

theorem proper_opened (program : Program) :
    (program.opened test1 test2).Proper test1 test2 content ∧
      (program.opened test1 test2).written content = [] ∧
        (program.opened test1 test2).total content = program.total content := by
  cases program with
  | copy => exact ⟨⟨rfl, rfl, rfl, trivial⟩, rfl, rfl⟩
  | greet s => exact ⟨⟨rfl, rfl⟩, rfl, rfl⟩

/-- A process has written the beginning of what its program writes, and all of it when it has closed
its files. -/
theorem written_starts (p : Process κ) : p.written content <+: p.total content ∧
    (p.Closed → p.written content = p.total content) := by
  cases p with
  | copier fd1 fd2 stage =>
    cases stage with
    | toRead | toWrite => exact ⟨List.take_prefix _ _, False.elim⟩
    | closed => exact ⟨List.prefix_refl _, fun _ ↦ rfl⟩
  | greeter fd1 s stage =>
    cases stage with
    | toGreet => exact ⟨List.nil_prefix, False.elim⟩
    | closed => exact ⟨List.prefix_refl _, fun _ ↦ rfl⟩
    | _ => exact ⟨List.prefix_append _ _, False.elim⟩

variable [DecidableEq κ] {store store' : Store κ} {p p' : Process κ} {effect : Effect}

structure Adds (test1 test2 : κ) (content : List UInt8) (store store' : Store κ) (p p' : Process κ)
    (bytes : List UInt8) : Prop where
  proper : p'.Proper test1 test2 content
  store : store' = Function.update store test1 (store test1 ++ bytes)
  total : p'.total content = p.total content
  written : p'.written content = p.written content ++ bytes

theorem write_adds {fd1 : Description κ} (hfile : fd1.file = test1) (happend : fd1.appending)
    (store : Store κ) (bytes : List UInt8) :
    (fd1.write store bytes).1 = Function.update store test1 (store test1 ++ bytes) := by
  rw [write_appending happend, hfile]

theorem Adds.silent (hproper : p'.Proper test1 test2 content)
    (htotal : p'.total content = p.total content) (hwritten : p'.written content = p.written content) :
    Adds test1 test2 content store store p p' [] := by
  refine ⟨hproper, ?_, htotal, ?_⟩
  · rw [List.append_nil, Function.update_eq_self]
  · rw [List.append_nil, hwritten]

/-- A system call of a proper process only appends to `test1`. -/
theorem step_adds (hne : test1 ≠ test2) (h : p.Proper test1 test2 (store test2))
    (hstep : p.step store = .ok (store', p', effect)) :
    Adds test1 test2 (store test2) store store' p p' effect.bytes := by
  cases p with
  | copier fd1 fd2 stage =>
    obtain ⟨hfile, happend, hsource, hstage⟩ := h
    subst hsource
    cases stage with
    | toRead =>
      rcases Nat.lt_or_ge fd2.position (store fd2.file).length with hlt | hge
      · rw [Process.step, read_one hlt] at hstep
        cases hstep
        exact .silent ⟨hfile, happend, rfl, Nat.succ_pos _, List.getElem?_eq_getElem hlt⟩ rfl rfl
      · rw [Process.step, read_end hge] at hstep
        cases hstep
        exact .silent ⟨hfile, happend, rfl, trivial⟩ rfl (List.take_of_length_le hge).symm
    | toWrite byte =>
      cases hstep
      obtain ⟨hpos, hbyte⟩ := hstage
      refine ⟨⟨hfile, happend, rfl, trivial⟩,
        write_adds hfile happend store [byte], rfl, ?_⟩
      obtain ⟨n, hn⟩ := Nat.exists_eq_succ_of_ne_zero (Nat.ne_of_gt hpos)
      rw [hn, Nat.succ_sub_one] at hbyte
      simp only [written, Effect.bytes, hn, Nat.succ_sub_one]
      rw [List.take_add_one, hbyte]
      rfl
    | closed => cases hstep
  | greeter fd1 s stage =>
    obtain ⟨hfile, happend⟩ := h
    cases stage with
    | toGreet =>
      cases hstep
      exact ⟨⟨hfile, happend⟩, write_adds hfile happend store hiiii, rfl, rfl⟩
    | toSign =>
      cases hstep
      exact ⟨⟨hfile, happend⟩, write_adds hfile happend store abbbb, rfl, rfl⟩
    | toPrint text =>
      rw [Process.step] at hstep
      split at hstep
      · cases hstep
        exact .silent ⟨hfile, happend⟩ rfl rfl
      · cases hstep
    | toRewind | toRead | toRewindAgain =>
      cases hstep
      exact .silent ⟨hfile, happend⟩ rfl rfl
    | closed => cases hstep

end Process

section Runs

variable {ι κ : Type} [DecidableEq ι] [DecidableEq κ] {test1 test2 : κ} {s s' : Machine ι κ}
  {trace : List (Transition (Machine ι κ) ι Effect)}

def bytesOf (i : ι) (trace : List (Transition (Machine ι κ) ι Effect)) : List UInt8 :=
  (trace.filter fun e ↦ e.input = i).flatMap fun e ↦ e.output.bytes

theorem step_ok {i : ι} {effect : Effect} (h : s.step i = .ok (s', effect)) :
    ∃ store p, (s.process i).step s.store = .ok (store, p, effect) ∧
      s' = ⟨store, Function.update s.process i p⟩ := by
  rw [Machine.step] at h
  split at h
  · cases h
  · rename_i store p effect' hcall
    cases h
    exact ⟨store, p, hcall, rfl⟩

theorem step_of {i : ι} {store : Store κ} {p : Process κ} {effect : Effect}
    (h : (s.process i).step s.store = .ok (store, p, effect)) :
    s.step i = .ok (⟨store, Function.update s.process i p⟩, effect) := by
  rw [Machine.step, h]

/-- In a run of proper processes, `test1` gets what they write, in the order in which they write. -/
theorem run_adds (hne : test1 ≠ test2) (hrun : Execution Machine.step s trace s')
    (h : ∀ i, (s.process i).Proper test1 test2 (s.store test2)) :
    s'.store = Function.update s.store test1
        (s.store test1 ++ trace.flatMap fun e ↦ e.output.bytes) ∧
    ∀ i, (s'.process i).total (s.store test2) = (s.process i).total (s.store test2) ∧
      (s'.process i).written (s.store test2) =
        (s.process i).written (s.store test2) ++ bytesOf i trace := by
  induction hrun with
  | nil =>
    refine ⟨by simp, fun i ↦ ⟨rfl, ?_⟩⟩
    rw [bytesOf, List.filter_nil, List.flatMap_nil, List.append_nil]
  | @cons s t u i effect trace hstep _ ih =>
    obtain ⟨store, p, hcall, rfl⟩ := step_ok hstep
    obtain ⟨hproper, rfl, htotal, hwritten⟩ := Process.step_adds hne (h i) hcall
    have hkept : Function.update s.store test1 (s.store test1 ++ effect.bytes) test2 = s.store test2 :=
      Function.update_of_ne hne.symm _ _
    have hnext (j : ι) : (Function.update s.process i p j).Proper test1 test2 (s.store test2) := by
      rcases eq_or_ne j i with rfl | hj
      · rwa [Function.update_self]
      · rw [Function.update_of_ne hj]
        exact h j
    simp only [hkept] at ih
    obtain ⟨hstore, hprocess⟩ := ih hnext
    refine ⟨?_, fun j ↦ ?_⟩
    · rw [hstore, Function.update_self, Function.update_idem, List.flatMap_cons, List.append_assoc]
    · obtain ⟨htotal', hwritten'⟩ := hprocess j
      rw [htotal', hwritten']
      rcases eq_or_ne j i with rfl | hj
      · rw [Function.update_self, htotal, hwritten, bytesOf, bytesOf,
          List.filter_cons_of_pos (by simp), List.flatMap_cons, List.append_assoc]
        exact ⟨rfl, rfl⟩
      · rw [Function.update_of_ne hj, bytesOf, bytesOf,
          List.filter_cons_of_neg (by simpa using hj.symm)]
        exact ⟨rfl, rfl⟩

/-- However any number of processes of the two programs interleave, `test1` holds what it held and
then all that they have written, nothing is overwritten, and each of them has written the beginning
of what its program writes, or all of it. -/
theorem appends_interleave {store : Store κ} {programs : ι → Program} (hne : test1 ≠ test2)
    (hrun : Execution Machine.step ⟨store, fun i ↦ (programs i).opened test1 test2⟩ trace s) :
    s.store = Function.update store test1 (store test1 ++ trace.flatMap fun e ↦ e.output.bytes) ∧
    ∀ i, bytesOf i trace <+: (programs i).total (store test2) ∧
      ((s.process i).Closed → bytesOf i trace = (programs i).total (store test2)) := by
  obtain ⟨hstore, hprocess⟩ := run_adds hne hrun fun i ↦ (Process.proper_opened (programs i)).1
  refine ⟨hstore, fun i ↦ ?_⟩
  obtain ⟨htotal, hwritten⟩ := hprocess i
  obtain ⟨-, hstart, htotal'⟩ : ((programs i).opened test1 test2).Proper test1 test2 (store test2) ∧
    _ ∧ _ := Process.proper_opened (programs i)
  rw [hstart, List.nil_append] at hwritten
  rw [htotal'] at htotal
  rw [← hwritten, ← htotal]
  exact (s.process i).written_starts

def both : Bool → Program
  | true => .copy
  | false => .greet fun _ ↦ 0

theorem appends_interleave_two :
    ∃ (trace : List (Transition (Machine Bool Bool) Bool Effect)) (s : Machine Bool Bool),
      s.store true = hiiii ++ [1] ++ abbbb ∧ bytesOf true trace = [1] ∧
        bytesOf false trace = hiiii ++ abbbb := by
  obtain ⟨trace, s, hrun, hs⟩ := exists_execution Machine.step
    (⟨fun file ↦ if file then [] else [1], fun i ↦ (both i).opened true false⟩ :
      Machine Bool Bool)
    [true, false, true, false, false, false, false, false, true]
    (fun trace s ↦ trace.flatMap (fun e ↦ e.output.bytes) = hiiii ++ [1] ++ abbbb ∧
      (match s.process true, s.process false with
        | .copier _ _ .closed, .greeter _ _ .closed => true
        | _, _ => false) = true) (by decide +kernel)
  obtain ⟨hbytes, hclosed⟩ := of_decide_eq_true hs
  obtain ⟨hstore, hall⟩ := appends_interleave (by decide) hrun
  refine ⟨trace, s, ?_, (hall true).2 ?_, (hall false).2 ?_⟩
  · rw [hstore, hbytes]
    rfl
  · split at hclosed
    · rename_i h _
      rw [h]
      exact trivial
    · cases hclosed
  · split at hclosed
    · rename_i _ h
      rw [h]
      exact trivial
    · cases hclosed

end Runs

section Alone

variable {κ : Type} {test1 test2 : κ} {store : Store κ} {s : Machine Unit κ}
  {trace : List (Transition (Machine Unit κ) Unit Effect)}

def copying (store : Store κ) (test1 test2 : κ) : Machine Unit κ :=
  ⟨store, fun _ ↦ Program.copy.opened test1 test2⟩

def cycled (content : List UInt8) (n : ℕ) : List UInt8 :=
  (List.range n).map fun i ↦ content.getD (i % content.length) 0

theorem cycled_length (content : List UInt8) : cycled content content.length = content := by
  refine List.ext_getElem (by simp [cycled]) fun i hi hi' ↦ ?_
  simp [cycled, Nat.mod_eq_of_lt hi', hi']

theorem getElem_cycled {content : List UInt8} {n k : ℕ} (h : k < (cycled content n).length) :
    (cycled content n)[k] = content.getD (k % content.length) 0 := by
  simp [cycled]

theorem cycled_add_one (content : List UInt8) (k : ℕ) :
    cycled content (content.length + (k + 1)) =
      cycled content (content.length + k) ++ [content.getD (k % content.length) 0] := by
  rw [← Nat.add_assoc, cycled, List.range_succ, List.map_append, List.map_singleton,
    Nat.add_mod_left]
  rfl

/-- The process reads what it has written itself, as many bytes behind as the file had. -/
structure Behind (file : κ) (content : List UInt8) (k : ℕ) (fd1 fd2 : Description κ)
    (store : Store κ) : Prop where
  output : fd1.file = file
  appending : fd1.appending
  source : fd2.file = file
  store : store file = cycled content (content.length + k)

inductive Chases (file : κ) (content : List UInt8) (s : Machine Unit κ) : Prop
  | toRead (fd1 fd2 : Description κ) : s.process () = .copier fd1 fd2 .toRead →
      Behind file content fd2.position fd1 fd2 s.store → Chases file content s
  | toWrite (fd1 fd2 : Description κ) (k : ℕ) :
      s.process () = .copier fd1 fd2 (.toWrite (content.getD (k % content.length) 0)) →
      fd2.position = k + 1 → Behind file content k fd1 fd2 s.store → Chases file content s

theorem Chases.not_closed {file : κ} {content : List UInt8} (h : Chases file content s) :
    ¬(s.process ()).Closed := by
  cases h with
  | toRead fd1 fd2 hprocess | toWrite fd1 fd2 k hprocess =>
    rw [hprocess]
    exact id

theorem Chases.repeats {file : κ} {content : List UInt8} (h : Chases file content s) :
    ∃ n, s.store file = cycled content n := by
  cases h with
  | toRead _ _ _ h | toWrite _ _ _ _ _ h => exact ⟨_, h.store⟩

theorem behind_opened (store : Store κ) (file : κ) :
    Behind file (store file) 0 ⟨file, 0, true⟩ ⟨file, 0, false⟩ store := by
  refine ⟨rfl, rfl, rfl, ?_⟩
  rw [Nat.add_zero, cycled_length]

theorem Behind.read {file : κ} {content : List UInt8} {fd1 fd2 : Description κ}
    (hne : content ≠ []) (h : Behind file content fd2.position fd1 fd2 store) :
    ∃ hlt : fd2.position < (store fd2.file).length,
      (store fd2.file)[fd2.position] = content.getD (fd2.position % content.length) 0 := by
  have hpos := List.length_pos_iff.mpr hne
  have hlength : (store file).length = content.length + fd2.position := by simp [h.store, cycled]
  have hlt : fd2.position < (store fd2.file).length := by
    rw [h.source, hlength]
    omega
  exact ⟨hlt, by simp only [h.source, h.store, getElem_cycled]⟩

variable [DecidableEq κ]

theorem Behind.write {file : κ} {content : List UInt8} {fd1 fd2 : Description κ} {k : ℕ}
    (h : Behind file content k fd1 fd2 store) :
    Behind file content (k + 1) (fd1.write store [content.getD (k % content.length) 0]).2 fd2
      (fd1.write store [content.getD (k % content.length) 0]).1 := by
  refine ⟨h.output, h.appending, h.source, ?_⟩
  rw [write_appending h.appending, h.output, Function.update_self, h.store, cycled_add_one]

theorem Chases.step {file : κ} {content : List UInt8} {s' : Machine Unit κ} {effect : Effect}
    (hne : content ≠ []) (h : Chases file content s) (hstep : s.step () = .ok (s', effect)) :
    Chases file content s' := by
  obtain ⟨store, p, hcall, rfl⟩ := step_ok hstep
  cases h with
  | toRead fd1 fd2 hprocess hbehind =>
    obtain ⟨hlt, hbyte⟩ := hbehind.read hne
    rw [hprocess, Process.step, read_one hlt, hbyte] at hcall
    cases hcall
    refine .toWrite fd1 (fd2.seek (fd2.position + 1)) fd2.position ?_ rfl
      ⟨hbehind.output, hbehind.appending, hbehind.source, hbehind.store⟩
    simp only [Function.update_self]
  | toWrite fd1 fd2 k hprocess hposition hbehind =>
    rw [hprocess, Process.step] at hcall
    have hnext := hbehind.write
    rw [← hposition] at hnext
    simp only [Except.ok.injEq, Prod.mk.injEq] at hcall
    obtain ⟨rfl, rfl, -⟩ := hcall
    refine .toRead _ fd2 ?_ hnext
    simp only [Function.update_self]

/-- One pass of the loop. -/
theorem copier_copies {fd1 fd2 : Description κ} (hprocess : s.process () = .copier fd1 fd2 .toRead)
    (hlt : fd2.position < (s.store fd2.file).length) :
    ∃ trace s', Execution Machine.step s trace s' ∧
      s'.store = (fd1.write s.store [(s.store fd2.file)[fd2.position]]).1 ∧
      s'.process () = .copier (fd1.write s.store [(s.store fd2.file)[fd2.position]]).2
        (fd2.seek (fd2.position + 1)) .toRead := by
  have hread : (s.process ()).step s.store = .ok (s.store, .copier fd1
      (fd2.seek (fd2.position + 1)) (.toWrite (s.store fd2.file)[fd2.position]), .none) := by
    rw [hprocess, Process.step, read_one hlt]
  have hwrite : (Function.update s.process () (.copier fd1 (fd2.seek (fd2.position + 1))
      (.toWrite (s.store fd2.file)[fd2.position])) ()).step s.store =
        .ok ((fd1.write s.store [(s.store fd2.file)[fd2.position]]).1, .copier
          (fd1.write s.store [(s.store fd2.file)[fd2.position]]).2 (fd2.seek (fd2.position + 1))
            .toRead, .wrote [(s.store fd2.file)[fd2.position]]) := by
    rw [Function.update_self, Process.step]
  refine ⟨_, _, .cons (step_of hread) (.one (step_of (i := ()) hwrite)), rfl, ?_⟩
  simp only [Function.update_self]

theorem copier_ends {fd1 fd2 : Description κ} (hprocess : s.process () = .copier fd1 fd2 .toRead)
    (hend : (s.store fd2.file).length ≤ fd2.position) :
    ∃ trace s', Execution Machine.step s trace s' ∧ (s'.process ()).Closed := by
  have hread : (s.process ()).step s.store = .ok (s.store, .copier fd1 fd2 .closed, .none) := by
    rw [hprocess, Process.step, read_end hend]
  refine ⟨_, _, .one (step_of hread), ?_⟩
  simp only [Function.update_self]
  exact trivial

theorem copier_closes (hne : test1 ≠ test2) {fd1 fd2 : Description κ}
    (hprocess : s.process () = .copier fd1 fd2 .toRead) (hfile : fd1.file = test1)
    (happend : fd1.appending) (hsource : fd2.file = test2) :
    ∃ trace s', Execution Machine.step s trace s' ∧ (s'.process ()).Closed := by
  obtain ⟨n, hn⟩ : ∃ n, n = (s.store test2).length - fd2.position := ⟨_, rfl⟩
  induction n generalizing s fd1 fd2 with
  | zero =>
    apply copier_ends hprocess
    rw [hsource]
    omega
  | succ n ih =>
    have hlt : fd2.position < (s.store fd2.file).length := by
      rw [hsource]
      omega
    obtain ⟨trace, s', hrun, hstore, hnext⟩ := copier_copies hprocess hlt
    have hkept : s'.store test2 = s.store test2 := by
      rw [hstore, write_appending happend, Function.update_of_ne (hfile ▸ hne.symm)]
    obtain ⟨trace', s'', hrun', hclosed⟩ := ih hnext hfile happend hsource (by
      rw [hkept]
      simp only [Description.seek]
      omega)
    exact ⟨_, _, hrun.append hrun', hclosed⟩

theorem copier_grows {file : κ} {content : List UInt8} {fd1 fd2 : Description κ}
    (hne : content ≠ []) (hprocess : s.process () = .copier fd1 fd2 .toRead)
    (h : Behind file content fd2.position fd1 fd2 s.store) (n : ℕ) :
    ∃ trace s', Execution Machine.step s trace s' ∧
      s'.store file = cycled content (content.length + fd2.position + n) := by
  induction n generalizing s fd1 fd2 with
  | zero => exact ⟨[], s, .nil s, h.store⟩
  | succ n ih =>
    obtain ⟨hlt, hbyte⟩ := h.read hne
    obtain ⟨trace, s', hrun, hstore, hnext⟩ := copier_copies hprocess hlt
    rw [hbyte] at hstore hnext
    have hbehind := h.write
    rw [← hstore] at hbehind
    obtain ⟨trace', s'', hrun', hlong⟩ := ih hnext
      ⟨hbehind.output, hbehind.appending, hbehind.source, hbehind.store⟩
    refine ⟨_, _, hrun.append hrun', hlong.trans (congrArg _ ?_)⟩
    simp only [Description.seek]
    omega

/-- The process comes to its end exactly when the names are those of two files, or of one empty
file. Else the file repeats what it held and grows without end. -/
theorem copy_ends_iff (store : Store κ) (test1 test2 : κ) :
    ((∃ trace s, Execution Machine.step (copying store test1 test2) trace s ∧
      (s.process ()).Closed) ↔ test1 ≠ test2 ∨ store test2 = []) ∧
    (test1 = test2 → store test1 ≠ [] →
      (∀ trace s, Execution Machine.step (copying store test1 test2) trace s →
        ∃ n, s.store test1 = cycled (store test1) n) ∧
      ∀ n, ∃ trace s, Execution Machine.step (copying store test1 test2) trace s ∧
        s.store test1 = cycled (store test1) ((store test1).length + n)) := by
  obtain hne | rfl := ne_or_eq test1 test2
  · exact ⟨iff_of_true (copier_closes hne rfl rfl rfl rfl) (.inl hne), fun h ↦ (hne h).elim⟩
  obtain hnil | hcons := eq_or_ne (store test1) []
  · refine ⟨iff_of_true (copier_ends rfl ?_) (.inr hnil), fun _ h ↦ (h hnil).elim⟩
    exact Nat.le_of_eq (congrArg List.length hnil)
  have hstart : Chases test1 (store test1) (copying store test1 test1) :=
    .toRead _ _ rfl (behind_opened store test1)
  have hchases (trace : List (Transition (Machine Unit κ) Unit Effect)) (s : Machine Unit κ)
      (hrun : Execution Machine.step (copying store test1 test1) trace s) :
      Chases test1 (store test1) s :=
    (hrun.invariant (fun _ hs _ h ↦ h.step hcons hs) (fun _ _ ↦ trivial) hstart).1
  refine ⟨iff_of_false ?_ ?_, fun _ _ ↦ ⟨fun trace s hrun ↦ (hchases trace s hrun).repeats, ?_⟩⟩
  · rintro ⟨trace, s, hrun, hclosed⟩
    exact (hchases trace s hrun).not_closed hclosed
  · exact fun h ↦ h.elim (fun hne ↦ hne rfl) hcons
  · obtain ⟨fd1, fd2, hopened, hbehind⟩ : ∃ fd1 fd2 : Description κ,
      (copying store test1 test1).process () = .copier fd1 fd2 .toRead ∧ fd2.position = 0 ∧
        Behind test1 (store test1) fd2.position fd1 fd2 store :=
      ⟨_, _, rfl, rfl, behind_opened store test1⟩
    have hgrows := copier_grows hcons hopened hbehind.2
    rwa [hbehind.1, Nat.add_zero] at hgrows

end Alone

end InternetApplications.Labs
