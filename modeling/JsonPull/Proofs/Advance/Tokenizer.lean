import JsonPull.Proofs.Advance.Token
import JsonPull.Proofs.Grammar.Soundness
import JsonPull.Proofs.Tokenizer.Fair

/-! # Typed and plain reads take the same way

A caller may mix reads of tokens and reads of values. Behind a value, the reader is in the same place
and the same state, whichever way the value was read. -/

namespace JsonPull

variable {stream : List UInt8}

namespace Tokenizer

/-- Plain reads up to a token that is no comment, or to the end. -/
inductive ReadsOn : Tokenizer → Tokenizer → Prop where
  | token {t t' : Tokenizer} (h : t.read = (.ok true, t')) (htoken : t'.token ≠ .comment) :
      ReadsOn t t'
  | none {t t' : Tokenizer} (h : t.read = (.ok false, t')) : ReadsOn t t'
  | comment {t t' last : Tokenizer} (h : t.read = (.ok true, t')) (htoken : t'.token = .comment)
      (hrest : ReadsOn t' last) : ReadsOn t last

variable {t t' : Tokenizer}

theorem ReadsOn.whole (h : t.Upright stream) (hreads : t.ReadsOn t') :
    Reading.ReadsOn t.options.settings stream t.state t.feed.window.cursor t'.state
      t'.feed.window.cursor := by
  induction hreads with
  | token hread htoken => exact .stop (read_ends h hread) fun _ => htoken
  | none hread => exact .stop (read_ends h hread) nofun
  | @comment t t₁ last hread htoken _ ih =>
      have hupright := h.call .read
      have hoptions := options_call .read t
      rw [call_read_eq hread] at hupright hoptions
      have hrest := ih hupright
      rw [hoptions] at hrest
      exact .comment (read_ends h hread) htoken hrest

theorem follow_one {c : Call} {answer : Answer} (h : t.call c = (.ok answer, t')) :
    Grammar.follow [c] t = some ([t'.token], t') := by
  rw [Grammar.follow, h]
  rfl

/-- Behind any calls that succeed, a value may be read in a form, or by plain reads over the comments
before it. If both succeed they lead to the same phase, containers, cursor and line. Bytes that are
written as an array are left out, since a plain read stops at its start. -/
theorem readAs_advances_alike (options : Options) {source : Source} (hfair : source.Fair)
    (pool : Pool) (heeds : Bool) (calls : List Call) {tokens : List Token} {t : Tokenizer}
    (h : Grammar.follow calls (ofSource options source pool heeds) = some (tokens, t))
    {form : Form} {answer : Answer} {typed plain : Tokenizer}
    (htyped : t.call (.readAs form) = (.ok answer, typed)) (hplain : t.ReadsOn plain)
    (harray : form = .bytes → plain.token ≠ .opening .array) :
    plain.phase = typed.phase ∧ plain.state.frames = typed.state.frames ∧
      plain.feed.window.cursor = typed.feed.window.cursor ∧
      plain.state.lines = typed.state.lines := by
  have hupright : t.Upright source.bytes := Grammar.follow_keeps (fun _ c _ hu _ => hu.call c)
    (upright_ofSource options hfair pool heeds) h
  have hbytes : form.request = .bytes → plain.state.token ≠ .opening .array := by
    intro hrequest
    refine harray ?_
    cases form <;> first | rfl | cases hrequest
  obtain ⟨halike, hcursor⟩ :=
    Reading.requested_readsOn (readAs_ends hupright htyped) (hplain.whole hupright) hbytes
  exact ⟨halike.phase_eq, halike.frames_eq, hcursor, halike.lines_eq⟩

/-- In the text `[ /* c */ 1, 2]`, with comments surfaced, the first element is read as an integer in
one call, and by plain reads in two. -/
theorem readAs_advances_alike_commented :
    let source : Source :=
      { script := [.bytes ⟨#[0x5B, 0x20, 0x2F, 0x2A, 0x63, 0x2A, 0x2F, 0x31, 0x2C]⟩ 0,
          .bytes ⟨#[0x32, 0x5D]⟩ 0], limit := some 3 }
    let start := ofSource { surfaceComments := true, initialCapacity := 1 } source {} false
    ∃ t typed plain, source.Fair ∧ Grammar.follow [.read] start = some ([t.token], t) ∧
      t.call (.readAs .int32) = (.ok (.int32 (some 1)), typed) ∧ t.ReadsOn plain ∧
      plain.phase = typed.phase ∧ plain.state.frames = typed.state.frames ∧
      plain.feed.window.cursor = typed.feed.window.cursor ∧
      plain.state.lines = typed.state.lines := by
  intro source start
  have hfair : source.Fair := (by decide : source.Steady).fair
  have hstart : (start.call .read).1 = .ok (.found true) := by decide +kernel
  have hnumber : ((start.call .read).2.call (.readAs .int32)).1 = .ok (.int32 (some 1)) := by
    decide +kernel
  have hcomment : (start.call .read).2.read.1 = .ok true := by decide +kernel
  have htoken : (start.call .read).2.read.2.token = .comment := by decide +kernel
  have hplain : (start.call .read).2.read.2.read.1 = .ok true := by decide +kernel
  have hvalue : (start.call .read).2.read.2.read.2.token = .scalar .integer := by decide +kernel
  have hfollow := follow_one (pair_eq hstart)
  have hreads : (start.call .read).2.ReadsOn (start.call .read).2.read.2.read.2 :=
    .comment (pair_eq hcomment) htoken (.token (pair_eq hplain) (by simp [hvalue]))
  exact ⟨_, _, _, hfair, hfollow, pair_eq hnumber, hreads,
    readAs_advances_alike _ hfair _ _ _ hfollow (pair_eq hnumber) hreads nofun⟩

end Tokenizer

end JsonPull
