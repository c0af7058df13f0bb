import Stencil.Engine.Session
import Stencil.Text.Span
import Stencil.Proofs.Render.Agreement
import Stencil.Proofs.Code.Storage
import Stencil.Proofs.Code.Translation
import Stencil.Proofs.Engine.Closure
import Stencil.Proofs.Code.Bracketing
import Stencil.Proofs.Render.Deliveries
import Stencil.Proofs.Render.Lockstep
import Stencil.Proofs.Render.Escaping
import Stencil.Proofs.Render.Termination
import Stencil.Proofs.Engine.Origins
import Stencil.Proofs.Engine.Acceptance
import Stencil.Proofs.Render.Scripts
import Stencil.Proofs.Render.Advances
import Stencil.Proofs.Render.Protocol
import Stencil.Proofs.Markup.Writing
import Stencil.Proofs.Markup.Correspondence
import Stencil.Proofs.Engine.Printing
import Stencil.Proofs.Engine.Whereabouts
import Stencil.Proofs.Engine.Requests
import Stencil.Proofs.Engine.Loaders
import Stencil.Proofs.Engine.Bytewise
import Stencil.Proofs.Render.Unnamed
import Stencil.Proofs.Render.Records
import Stencil.Proofs.Code.Untrusted
import Stencil.Proofs.Engine.Endings
import Stencil.Proofs.Render.Limits
import Stencil.Proofs.Render.Indentation
import Stencil.Proofs.Engine.Depths
import Stencil.Proofs.Engine.Appending
import Stencil.Proofs.Code.Refusals
import Stencil.Proofs.Render.Passes
import Stencil.Proofs.Render.Owners
import Stencil.Proofs.Render.Frames
import Stencil.Proofs.Render.Texts
import Stencil.Proofs.Engine.Normality
import Stencil.Proofs.Markup.Comments
import Stencil.Proofs.Engine.Unclosed
import Stencil.Proofs.Engine.Carets
import Stencil.Proofs.Engine.Insertions
import Stencil.Proofs.Render.Forms
import Stencil.Proofs.Data.Conversions
import Stencil.Proofs.Text.Tilings
import Stencil.Proofs.Markup.Tilings
import Stencil.Proofs.Markup.Directives
import Stencil.Proofs.Data.Readings
import Stencil.Proofs.Data.Equality
import Stencil.Proofs.Text.LineEnds
import Stencil.Proofs.Engine.Loaders
